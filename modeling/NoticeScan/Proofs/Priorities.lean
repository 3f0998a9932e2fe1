import NoticeScan.Proofs.Demands
import NoticeScan.Proofs.Paths

/-!
# The order of ways

An expression of tests, sequences, choices and bounded repeats that give rounds back looks at
nothing but the text from where it stands. So what it does is told by the lengths of the stretches
that it can take there, in the order in which it tries them. The first of them is what a search
finds, and what stands behind a stretch decides nothing about the lengths within it.
-/

namespace NoticeScan.Regex

/-! ## Lengths in order -/

/-- The lengths that can be taken from the front of a text, in the order in which they are
tried. -/
abbrev Lengths := List Char → List Nat

namespace Lengths

/-- Nothing is taken. -/
def stay : Lengths := fun _ => [0]

/-- One character that passes a test. -/
def oneOf (test : CharTest) : Lengths
  | [] => []
  | c :: _ => if test.passes c then [1] else []

/-- One stretch and then another. -/
def andThen (first second : Lengths) : Lengths := fun s =>
  (first s).flatMap fun taken => (second (s.drop taken)).map (taken + ·)

/-- Either of two kinds of stretches, with those of the first kind tried before. -/
def either (first second : Lengths) : Lengths := fun s =>
  first s ++ second s

/-- A number of stretches of one kind. -/
def times : Nat → Lengths → Lengths
  | 0, _ => stay
  | count + 1, lengths => lengths.andThen (times count lengths)

/-- At most a number of stretches of one kind, as many as possible first. -/
def upTo : Nat → Lengths → Lengths
  | 0, _ => stay
  | count + 1, lengths => (lengths.andThen (upTo count lengths)).either stay

/-- As many stretches of one kind as the bounds of a repeat allow, as many as possible first. -/
def between (low high : Nat) (lengths : Lengths) : Lengths :=
  (times low lengths).andThen (upTo (high - low) lengths)

end Lengths

/-- The lengths of an expression. -/
def Node.lengths : Node → Lengths
  | .empty => .stay
  | .never => fun _ => []
  | .char test => .oneOf test
  | .seq first second => first.lengths.andThen second.lengths
  | .alt first second => first.lengths.either second.lengths
  | .repeated _ low high body => body.lengths.between low (high.getD low)
  | .anchor _ | .group _ _ | .again _ _ | .look _ _ _ | .atomic _ | .branch _ _ _ => fun _ => []

/-- Whether an expression is told by its lengths. What is repeated has to take something. -/
def Node.orderly : Node → Bool
  | .empty | .never | .char _ => true
  | .seq first second | .alt first second => first.orderly && second.orderly
  | .repeated greed low high body =>
      greed == .greedy && high.any (low ≤ ·) && body.demands (fun _ => true) && body.orderly
  | .anchor _ | .group _ _ | .again _ _ | .look _ _ _ | .atomic _ | .branch _ _ _ => false

/-- Whether all tests of an expression are of a kind. -/
def Node.onlyTests (among : CharTest → Bool) : Node → Bool
  | .char test => among test
  | .seq first second | .alt first second => first.onlyTests among && second.onlyTests among
  | .group _ body | .look _ _ body | .atomic body | .repeated _ _ _ body => body.onlyTests among
  | .branch _ yes no => yes.onlyTests among && no.onlyTests among
  | .empty | .never | .anchor _ | .again _ _ => true

/-! ## What is taken -/

namespace Lengths

/-- What is taken is there, and all of it is of a kind. -/
def Taking (accepts : Char → Prop) (lengths : Lengths) : Prop :=
  ∀ s, ∀ taken ∈ lengths s, taken ≤ s.length ∧ ∀ c ∈ s.take taken, accepts c

/-- Something is taken. -/
def Moving (lengths : Lengths) : Prop :=
  ∀ s, ∀ taken ∈ lengths s, 0 < taken

variable {first second lengths : Lengths} {accepts : Char → Prop}

theorem mem_andThen
    {s : List Char}
    {taken : Nat} :
    taken ∈ first.andThen second s ↔
      ∃ one ∈ first s, ∃ other ∈ second (s.drop one), one + other = taken := by
  simp [andThen]

theorem taking_stay : stay.Taking accepts := by
  intro s taken member
  rw [List.mem_singleton.mp member]
  exact ⟨Nat.zero_le _, by simp⟩

theorem Taking.andThen
    (takingFirst : first.Taking accepts)
    (takingSecond : second.Taking accepts) :
    (first.andThen second).Taking accepts := by
  intro s taken member
  obtain ⟨one, early, other, late, rfl⟩ := mem_andThen.mp member
  obtain ⟨within, accepted⟩ := takingFirst s one early
  obtain ⟨withinToo, acceptedToo⟩ := takingSecond _ other late
  rw [List.length_drop] at withinToo
  refine ⟨by omega, ?_⟩
  intro c among
  rw [List.take_add, List.mem_append] at among
  exact among.elim (accepted c) (acceptedToo c)

theorem Taking.either
    (takingFirst : first.Taking accepts)
    (takingSecond : second.Taking accepts) :
    (first.either second).Taking accepts := by
  intro s taken member
  exact (List.mem_append.mp member).elim (takingFirst s taken) (takingSecond s taken)

theorem Taking.times
    (taking : lengths.Taking accepts)
    (count : Nat) :
    (times count lengths).Taking accepts := by
  induction count with
  | zero => exact taking_stay
  | succ count inductionHypothesis => exact taking.andThen inductionHypothesis

theorem Taking.upTo
    (taking : lengths.Taking accepts)
    (count : Nat) :
    (upTo count lengths).Taking accepts := by
  induction count with
  | zero => exact taking_stay
  | succ count inductionHypothesis =>
      exact (taking.andThen inductionHypothesis).either taking_stay

theorem Moving.andThen
    (moving : first.Moving ∨ second.Moving) :
    (first.andThen second).Moving := by
  intro s taken member
  obtain ⟨one, early, other, late, rfl⟩ := mem_andThen.mp member
  rcases moving with movingFirst | movingSecond
  · exact Nat.add_pos_left (movingFirst s one early) other
  · exact Nat.add_pos_right one (movingSecond _ other late)

end Lengths

theorem Node.onlyTests_true
    (node : Node) :
    node.onlyTests (fun _ => true) = true := by
  induction node <;> simp_all [onlyTests]

/-- An expression takes only characters that pass its tests. -/
theorem Node.lengths_taking
    {among : CharTest → Bool}
    {node : Node}
    (only : node.onlyTests among = true) :
    node.lengths.Taking fun c => ∃ test, among test = true ∧ test.passes c = true := by
  induction node with
  | empty => exact Lengths.taking_stay
  | char test =>
      intro s taken member
      cases s with
      | nil => cases member
      | cons c rest =>
          rw [lengths, Lengths.oneOf] at member
          split at member
          · rename_i passed
            rw [List.mem_singleton.mp member]
            refine ⟨by simp, ?_⟩
            intro other among
            rw [List.take_succ_cons, List.take_zero, List.mem_singleton] at among
            rw [among]
            exact ⟨test, only, passed⟩
          · cases member
  | seq first second ofFirst ofSecond =>
      obtain ⟨left, right⟩ := Bool.and_eq_true_iff.mp only
      exact (ofFirst left).andThen (ofSecond right)
  | alt first second ofFirst ofSecond =>
      obtain ⟨left, right⟩ := Bool.and_eq_true_iff.mp only
      exact (ofFirst left).either (ofSecond right)
  | repeated greed low high body ofBody =>
      exact ((ofBody only).times low).andThen ((ofBody only).upTo _)
  | never | anchor _ | group _ _ _ | again _ _ | look _ _ _ _ | atomic _ _ | branch _ _ _ _ _ =>
      exact fun s taken member => by cases member

/-- An expression that cannot do without a character takes something. -/
theorem Node.lengths_moving
    {node : Node}
    (demands : node.demands (fun _ => true) = true) :
    node.lengths.Moving := by
  induction node with
  | empty => cases demands
  | char test =>
      intro s taken member
      cases s with
      | nil => cases member
      | cons c rest =>
          rw [lengths, Lengths.oneOf] at member
          split at member
          · rw [List.mem_singleton.mp member]
            exact Nat.one_pos
          · cases member
  | seq first second ofFirst ofSecond =>
      exact .andThen ((Bool.or_eq_true_iff.mp demands).imp ofFirst ofSecond)
  | alt first second ofFirst ofSecond =>
      obtain ⟨left, right⟩ := Bool.and_eq_true_iff.mp demands
      intro s taken member
      exact (List.mem_append.mp member).elim (ofFirst left s taken) (ofSecond right s taken)
  | repeated greed low high body ofBody =>
      obtain ⟨atLeastOne, inside⟩ := Bool.and_eq_true_iff.mp demands
      obtain ⟨more, rfl⟩ : ∃ more, low = more + 1 :=
        ⟨low - 1, by have := of_decide_eq_true atLeastOne; omega⟩
      exact .andThen (.inl (.andThen (.inl (ofBody inside))))
  | never | anchor _ | group _ _ _ | again _ _ | look _ _ _ _ | atomic _ _ | branch _ _ _ _ _ =>
      exact fun s taken member => by cases member

/-! ## What stands behind -/

namespace Lengths

variable {first second lengths : Lengths}

/-- What stands behind a stretch decides nothing about the lengths within it. -/
def Local (lengths : Lengths) : Prop :=
  ∀ front back other,
    (lengths (front ++ back)).filter (· ≤ front.length) =
      (lengths (front ++ other)).filter (· ≤ front.length)

theorem local_stay : stay.Local :=
  fun _ _ _ => rfl

theorem local_oneOf (test : CharTest) : (oneOf test).Local := by
  intro front back other
  have far (s : List Char) : (oneOf test s).filter (· ≤ 0) = [] := by
    rw [List.filter_eq_nil_iff]
    intro taken member
    cases s with
    | nil => cases member
    | cons c rest =>
        rw [oneOf] at member
        split at member
        · rw [List.mem_singleton.mp member]
          simp
        · cases member
  cases front with
  | nil => exact (far _).trans (far _).symm
  | cons c rest => rfl

theorem flatMap_filter
    {α β : Type}
    {keeps : α → Bool}
    {make : α → List β}
    {list : List α}
    (nothing : ∀ item ∈ list, keeps item = false → make item = []) :
    (list.filter keeps).flatMap make = list.flatMap make := by
  induction list with
  | nil => rfl
  | cons item rest inductionHypothesis =>
      have ofRest := inductionHypothesis fun other member =>
        nothing other (List.mem_cons_of_mem item member)
      cases kept : keeps item with
      | true =>
          rw [List.filter_cons_of_pos kept, List.flatMap_cons, List.flatMap_cons, ofRest]
      | false =>
          rw [List.filter_cons_of_neg (by simp [kept]), List.flatMap_cons, ofRest,
            nothing item List.mem_cons_self kept, List.nil_append]

theorem Local.andThen
    (localFirst : first.Local)
    (localSecond : second.Local) :
    (first.andThen second).Local := by
  intro front back other
  let within (behind : List Char) (taken : Nat) : List Nat :=
    ((second ((front ++ behind).drop taken)).map (taken + ·)).filter (· ≤ front.length)
  have split (behind : List Char) :
      (first.andThen second (front ++ behind)).filter (· ≤ front.length) =
        ((first (front ++ behind)).filter (· ≤ front.length)).flatMap (within behind) := by
    rw [Lengths.andThen, List.filter_flatMap, flatMap_filter]
    intro taken _ far
    rw [List.filter_eq_nil_iff]
    intro sum member
    obtain ⟨more, -, rfl⟩ := List.mem_map.mp member
    simp only [decide_eq_false_iff_not, decide_eq_true_eq] at far ⊢
    omega
  rw [split, split, localFirst front back other]
  apply List.flatMap_congr
  intro taken member
  have le : taken ≤ front.length := of_decide_eq_true (List.mem_filter.mp member).2
  have shifted (behind : List Char) :
      within behind taken =
        ((second (front.drop taken ++ behind)).filter
          (· ≤ (front.drop taken).length)).map (taken + ·) := by
    have same : ((fun sum : Nat => decide (sum ≤ front.length)) ∘ (taken + ·)) =
        fun more => decide (more ≤ (front.drop taken).length) := by
      funext more
      rw [List.length_drop]
      exact decide_eq_decide.mpr (Nat.le_sub_iff_add_le' le).symm
    rw [← same, ← List.filter_map, ← List.drop_append_of_le_length le]
  rw [shifted, shifted, localSecond (front.drop taken) back other]

theorem Local.either
    (localFirst : first.Local)
    (localSecond : second.Local) :
    (first.either second).Local := by
  intro front back other
  rw [Lengths.either, Lengths.either, List.filter_append, List.filter_append,
    localFirst front back other, localSecond front back other]

theorem Local.times
    (isLocal : lengths.Local)
    (count : Nat) :
    (times count lengths).Local := by
  induction count with
  | zero => exact local_stay
  | succ count inductionHypothesis => exact isLocal.andThen inductionHypothesis

theorem Local.upTo
    (isLocal : lengths.Local)
    (count : Nat) :
    (upTo count lengths).Local := by
  induction count with
  | zero => exact local_stay
  | succ count inductionHypothesis =>
      exact (isLocal.andThen inductionHypothesis).either local_stay

/-- The first length within a stretch is the first one in front of anything that keeps all lengths
within it. -/
theorem Local.head?_eq
    (isLocal : lengths.Local)
    {front back other : List Char}
    (first : ∀ taken ∈ (lengths (front ++ back)).head?, taken ≤ front.length)
    (all : ∀ taken ∈ lengths (front ++ other), taken ≤ front.length) :
    (lengths (front ++ other)).head? = (lengths (front ++ back)).head? := by
  have kept : (lengths (front ++ other)).filter (· ≤ front.length) = lengths (front ++ other) :=
    List.filter_eq_self.mpr fun taken member => decide_eq_true (all taken member)
  rw [← kept, ← isLocal front back other]
  cases listed : lengths (front ++ back) with
  | nil => rfl
  | cons taken rest =>
      have le : taken ≤ front.length := first taken (by rw [listed]; rfl)
      rw [List.filter_cons, if_pos (decide_eq_true le)]
      rfl

end Lengths

theorem Node.lengths_local
    (node : Node) :
    node.lengths.Local := by
  induction node with
  | empty => exact Lengths.local_stay
  | char test => exact Lengths.local_oneOf test
  | seq first second ofFirst ofSecond => exact ofFirst.andThen ofSecond
  | alt first second ofFirst ofSecond => exact ofFirst.either ofSecond
  | repeated greed low high body ofBody => exact (ofBody.times low).andThen (ofBody.upTo _)
  | never | anchor _ | group _ _ _ | again _ _ | look _ _ _ _ | atomic _ _ | branch _ _ _ _ _ =>
      exact fun _ _ _ => rfl

/-! ## Running -/

/-- A run tries the lengths that can be taken from where it stands, in their order. -/
def Lengths.Tried (text : Array Char) (lengths : Lengths) (run : Next → Next) : Prop :=
  ∀ (next : Next) (pos : Nat),
    (run next (.fresh pos)).cursor? =
      (lengths (text.toList.drop pos)).findSome? fun taken => (next (.fresh (pos + taken))).cursor?

theorem cursor?_lastWay
    (looping : Bool)
    (cursor : Cursor)
    (run : Next) :
    (lastWay looping cursor run).cursor? = (run cursor).cursor? := by
  unfold lastWay
  cases looping with
  | false => rfl
  | true => cases run cursor <;> rfl

/-- Where nothing is marked, what is tried next starts from where the first way started. -/
theorem cursor?_orElse
    (first second : Next)
    (looping : Bool)
    (pos : Nat) :
    (match first (.fresh pos) with
      | .found behind => Outcome.found behind
      | .failed marks => second ((Cursor.fresh pos).after looping marks)).cursor? =
      (first (.fresh pos)).cursor?.or (second (.fresh pos)).cursor? := by
  cases first (.fresh pos) with
  | found behind => rfl
  | failed marks =>
      dsimp only
      rw [Cursor.after_fresh]
      rfl

theorem findSome?_flatMap
    {α β γ : Type}
    (make : α → List β)
    (pick : β → Option γ)
    (list : List α) :
    (list.flatMap make).findSome? pick = list.findSome? fun item => (make item).findSome? pick := by
  induction list with
  | nil => rfl
  | cons item rest inductionHypothesis =>
      rw [List.flatMap_cons, List.findSome?_append, inductionHypothesis, List.findSome?_cons]
      cases (make item).findSome? pick <;> rfl

theorem findSome?_congr
    {α γ : Type}
    {pick other : α → Option γ}
    {list : List α}
    (same : ∀ item ∈ list, pick item = other item) :
    list.findSome? pick = list.findSome? other := by
  induction list with
  | nil => rfl
  | cons item rest inductionHypothesis =>
      rw [List.findSome?_cons, List.findSome?_cons, same item List.mem_cons_self,
        inductionHypothesis fun item member => same item (List.mem_cons_of_mem _ member)]

namespace Lengths.Tried

variable {text : Array Char} {first second lengths : Lengths}
  {run runFirst runSecond round : Next → Next}

theorem stay : Tried text .stay fun next => next := by
  intro next pos
  rw [Lengths.stay, List.findSome?_singleton]
  rfl

theorem oneOf
    (test : CharTest)
    (looping : Bool) :
    (Lengths.oneOf test).Tried text ((Node.char test).run text looping) := by
  intro next pos
  rw [Node.run]
  by_cases inside : pos < text.size
  · have here : text.toList.drop pos = text[pos] :: text.toList.drop (pos + 1) :=
      List.drop_eq_getElem_cons (l := text.toList) inside
    rw [here, Lengths.oneOf, dif_pos (show (Cursor.fresh pos).pos < text.size from inside)]
    by_cases passed : test.passes text[pos] = true
    · rw [if_pos passed, if_pos (show test.passes text[(Cursor.fresh pos).pos] = true from passed),
        List.findSome?_singleton]
      rfl
    · rw [if_neg passed,
        if_neg (show ¬ test.passes text[(Cursor.fresh pos).pos] = true from passed)]
      rfl
  · have nothing : text.toList.drop pos = [] := List.drop_eq_nil_of_le (Nat.le_of_not_lt inside)
    rw [nothing, dif_neg (show ¬ (Cursor.fresh pos).pos < text.size from inside)]
    rfl

theorem andThen
    (triedFirst : first.Tried text runFirst)
    (triedSecond : second.Tried text runSecond) :
    (first.andThen second).Tried text fun next => runFirst (runSecond next) := by
  intro next pos
  rw [triedFirst, Lengths.andThen, findSome?_flatMap]
  apply findSome?_congr
  intro taken _
  rw [triedSecond, List.findSome?_map, List.drop_drop]
  apply findSome?_congr
  intro more _
  rw [Function.comp, Nat.add_assoc]

theorem either
    (triedFirst : first.Tried text runFirst)
    (triedSecond : second.Tried text runSecond)
    (looping : Bool) :
    (first.either second).Tried text fun next cursor =>
      match runFirst next cursor with
      | .found behind => .found behind
      | .failed marks =>
          lastWay looping (cursor.after looping marks) fun again => runSecond next again := by
  intro next pos
  rw [Lengths.either, List.findSome?_append, ← triedFirst, ← triedSecond,
    ← cursor?_lastWay looping (.fresh pos) (runSecond next)]
  exact cursor?_orElse (runFirst next)
    (fun cursor => lastWay looping cursor fun again => runSecond next again) looping pos

/-! ### Repeats of an expression -/

theorem requiredRounds
    (tried : lengths.Tried text round)
    (count : Nat) :
    (lengths.times count).Tried text fun next => requiredRounds round next count := by
  induction count with
  | zero => exact stay
  | succ count inductionHypothesis => exact tried.andThen inductionHypothesis

/-- Rounds that get on are tried as long as there are some to take. -/
theorem greedyRounds
    (tried : lengths.Tried text round)
    (moving : lengths.Moving)
    (next : Next)
    {bound pos : Nat}
    {last : Option Nat}
    (moved : last ≠ some pos) :
    (greedyRounds round next bound last (.fresh pos)).cursor? =
      (lengths.upTo bound (text.toList.drop pos)).findSome? fun taken =>
        (next (.fresh (pos + taken))).cursor? := by
  induction bound generalizing pos last with
  | zero => exact stay next pos
  | succ bound inductionHypothesis =>
      have again : (round (Regex.greedyRounds round next bound (some pos)) (.fresh pos)).cursor? =
          (lengths.andThen (lengths.upTo bound) (text.toList.drop pos)).findSome? fun taken =>
            (next (.fresh (pos + taken))).cursor? := by
        rw [tried, Lengths.andThen, findSome?_flatMap]
        apply findSome?_congr
        intro taken member
        have further : some pos ≠ some (pos + taken) := by
          have := moving _ taken member
          simp only [ne_eq, Option.some.injEq]
          omega
        rw [inductionHypothesis further, List.findSome?_map, List.drop_drop]
        apply findSome?_congr
        intro more _
        rw [Function.comp, Nat.add_assoc]
      have stays : ([0].findSome? fun taken => (next (.fresh (pos + taken))).cursor?) =
          (next (.fresh pos)).cursor? := by
        rw [List.findSome?_singleton]
        rfl
      rw [Lengths.upTo, Lengths.either, List.findSome?_append, ← again, Lengths.stay, stays,
        Regex.greedyRounds, if_neg (by simpa [Cursor.fresh] using moved)]
      have started : (Cursor.fresh pos).pos = pos := rfl
      rw [started]
      cases round (Regex.greedyRounds round next bound (some pos)) (.fresh pos) <;> rfl

end Lengths.Tried

namespace Lengths

variable {lengths : Lengths} {accepts : Char → Prop}

/-- More rounds than there are characters make no difference. -/
theorem upTo_stable
    (taking : lengths.Taking accepts)
    (moving : lengths.Moving)
    {count : Nat}
    (more : Nat)
    {s : List Char}
    (enough : s.length ≤ count) :
    lengths.upTo (count + more) s = lengths.upTo count s := by
  induction count generalizing s with
  | zero =>
      have empty : s = [] := List.eq_nil_of_length_eq_zero (Nat.le_zero.mp enough)
      have nothing : lengths s = [] := by
        rw [List.eq_nil_iff_forall_not_mem]
        intro taken member
        have positive := moving s taken member
        have within := (taking s taken member).1
        omega
      cases more with
      | zero => rfl
      | succ more =>
          have rounds : lengths.andThen (lengths.upTo (0 + more)) s = [] := by
            rw [andThen, nothing, List.flatMap_nil]
          exact congrArg (· ++ [0]) rounds
  | succ count inductionHypothesis =>
      have rounds : lengths.andThen (lengths.upTo (count + more)) s =
          lengths.andThen (lengths.upTo count) s := by
        apply List.flatMap_congr
        intro taken member
        have positive := moving s taken member
        have within := (taking s taken member).1
        rw [inductionHypothesis (by rw [List.length_drop]; omega)]
      rw [Nat.succ_add]
      exact congrArg (· ++ [0]) rounds

end Lengths

theorem Lengths.Tried.rounds
    {text : Array Char}
    {lengths : Lengths}
    {round : Next → Next}
    {accepts : Char → Prop}
    (tried : lengths.Tried text round)
    (taking : lengths.Taking accepts)
    (moving : lengths.Moving)
    (looping : Bool)
    (low high : Nat) :
    (lengths.between low high).Tried text (rounds text round looping .greedy low (some high)) := by
  have free : (lengths.upTo (high - low)).Tried text fun next behind =>
      Regex.greedyRounds round next (freeRounds text low (some high) behind) none behind := by
    intro next pos
    rw [tried.greedyRounds moving next (by simp)]
    have left : (text.toList.drop pos).length ≤ text.size - pos + 1 := by
      rw [List.length_drop, Array.length_toList]
      exact Nat.le_succ _
    rcases Nat.le_total (high - low) (text.size - pos + 1) with few | many
    · rw [show freeRounds text low (some high) (.fresh pos) = high - low from Nat.min_eq_left few]
    · obtain ⟨more, rounds⟩ := Nat.exists_eq_add_of_le many
      rw [show freeRounds text low (some high) (.fresh pos) = text.size - pos + 1 from
        Nat.min_eq_right many, rounds, upTo_stable taking moving more left]
  exact (tried.requiredRounds low).andThen free

/-! ### Repeats of a test -/

/-- The numbers from one down to none. -/
def descending : Nat → List Nat
  | 0 => [0]
  | count + 1 => (count + 1) :: descending count

theorem descending_succ
    (count : Nat) :
    descending (count + 1) = (descending count).map (1 + ·) ++ [0] := by
  induction count with
  | zero => rfl
  | succ count inductionHypothesis =>
      calc descending (count + 1 + 1)
        _ = (count + 1 + 1) :: ((descending count).map (1 + ·) ++ [0]) := by
            rw [← inductionHypothesis]
            rfl
        _ = (descending (count + 1)).map (1 + ·) ++ [0] := by
            rw [descending, List.map_cons, Nat.add_comm 1, List.cons_append]

theorem cursor?_fewerAndFewer
    (looping : Bool)
    (next : Next)
    (start extra pos : Nat) :
    (fewerAndFewer looping next start extra (.fresh pos)).cursor? =
      (descending extra).findSome? fun taken => (next (.fresh (start + taken))).cursor? := by
  induction extra with
  | zero =>
      rw [fewerAndFewer, cursor?_lastWay, descending, List.findSome?_singleton]
      rfl
  | succ extra inductionHypothesis =>
      have ordered := cursor?_orElse (fun cursor => next { cursor with pos := start + (extra + 1) })
        (fewerAndFewer looping next start extra) looping pos
      rw [inductionHypothesis] at ordered
      rw [descending, List.findSome?_cons]
      refine ordered.trans ?_
      dsimp only [Cursor.fresh]
      cases (next ⟨start + (extra + 1), #[]⟩).cursor? <;> rfl

/-- The number of characters in front of a text that pass a test. -/
def passing (test : CharTest) (s : List Char) : Nat :=
  (s.takeWhile test.passes).length

section Passing

variable {test : CharTest} {c : Char} {rest : List Char}

theorem passing_cons_pos
    (passed : test.passes c = true) :
    passing test (c :: rest) = passing test rest + 1 := by
  rw [passing, List.takeWhile_cons_of_pos passed, List.length_cons, passing]

theorem passing_cons_neg
    (passed : ¬ test.passes c = true) :
    passing test (c :: rest) = 0 := by
  rw [passing, List.takeWhile_cons_of_neg passed, List.length_nil]

theorem passing_drop
    {count : Nat}
    {s : List Char}
    (le : count ≤ passing test s) :
    passing test (s.drop count) + count = passing test s := by
  induction count generalizing s with
  | zero => rfl
  | succ count inductionHypothesis =>
      cases s with
      | nil => cases le
      | cons c rest =>
          by_cases passed : test.passes c = true
          · rw [passing_cons_pos passed] at le ⊢
            rw [List.drop_succ_cons, ← Nat.add_assoc,
              inductionHypothesis (Nat.le_of_succ_le_succ le)]
          · rw [passing_cons_neg passed] at le
            cases le

theorem runLength_eq
    (text : Array Char)
    (limit pos : Nat) :
    runLength text test limit pos = min limit (passing test (text.toList.drop pos)) := by
  induction limit generalizing pos with
  | zero => rw [runLength, Nat.zero_min]
  | succ limit inductionHypothesis =>
      rw [runLength]
      by_cases inside : pos < text.size
      · have here : text.toList.drop pos = text[pos] :: text.toList.drop (pos + 1) :=
          List.drop_eq_getElem_cons (l := text.toList) inside
        rw [dif_pos inside, here]
        by_cases passed : test.passes text[pos] = true
        · rw [if_pos passed, inductionHypothesis, passing_cons_pos passed, Nat.succ_min_succ]
        · rw [if_neg passed, passing_cons_neg passed, Nat.min_zero]
      · rw [dif_neg inside, List.drop_eq_nil_of_le (Nat.le_of_not_lt inside)]
        exact (Nat.min_zero _).symm

theorem upTo_oneOf
    (count : Nat)
    (s : List Char) :
    (Lengths.oneOf test).upTo count s = descending (min count (passing test s)) := by
  induction count generalizing s with
  | zero => rw [Nat.zero_min]; rfl
  | succ count inductionHypothesis =>
      cases s with
      | nil => rfl
      | cons c rest =>
          have rounds : (Lengths.oneOf test).upTo (count + 1) (c :: rest) =
              (Lengths.oneOf test (c :: rest)).flatMap (fun taken =>
                ((Lengths.oneOf test).upTo count ((c :: rest).drop taken)).map (taken + ·)) ++
                [0] := rfl
          rw [rounds, Lengths.oneOf]
          by_cases passed : test.passes c = true
          · rw [if_pos passed, List.flatMap_singleton, List.drop_succ_cons, List.drop_zero,
              inductionHypothesis, passing_cons_pos passed, Nat.succ_min_succ, descending_succ]
          · rw [if_neg passed, passing_cons_neg passed, Nat.min_zero]
            rfl

theorem times_oneOf
    (count : Nat)
    (s : List Char) :
    (Lengths.oneOf test).times count s = if count ≤ passing test s then [count] else [] := by
  induction count generalizing s with
  | zero => rw [if_pos (Nat.zero_le _)]; rfl
  | succ count inductionHypothesis =>
      rw [Lengths.times, Lengths.andThen]
      cases s with
      | nil => rfl
      | cons c rest =>
          rw [Lengths.oneOf]
          by_cases passed : test.passes c = true
          · rw [if_pos passed, List.flatMap_singleton, List.drop_succ_cons, List.drop_zero,
              inductionHypothesis, passing_cons_pos passed]
            simp only [Nat.add_le_add_iff_right]
            split
            · rw [List.map_singleton, Nat.add_comm]
            · rfl
          · rw [if_neg passed, passing_cons_neg passed, if_neg (Nat.not_succ_le_zero count)]
            rfl

theorem Lengths.Tried.runOfTest
    {text : Array Char}
    (looping : Bool)
    {low high : Nat}
    (ordered : low ≤ high) :
    ((Lengths.oneOf test).between low high).Tried text
      (runOfTest text test looping .greedy low (some high)) := by
  intro next pos
  have within : passing test (text.toList.drop pos) ≤ text.size - pos := by
    have := (List.takeWhile_prefix test.passes (l := text.toList.drop pos)).length_le
    rwa [List.length_drop, Array.length_toList] at this
  have count : runLength text test (min (text.size - pos) high) pos =
      min high (passing test (text.toList.drop pos)) := by
    rw [runLength_eq]
    omega
  rw [Lengths.between, Lengths.andThen, times_oneOf]
  by_cases enough : low ≤ passing test (text.toList.drop pos)
  · have run : Regex.runOfTest text test looping .greedy low (some high) next (.fresh pos) =
        fewerAndFewer looping next (pos + low)
          (min high (passing test (text.toList.drop pos)) - low) (.fresh pos) := by
      have long : ¬ runLength text test (min (text.size - pos) high) pos < low := by omega
      rw [← count]
      exact if_neg long
    have others := passing_drop enough
    have free : min (high - low) (passing test ((text.toList.drop pos).drop low)) =
        min high (passing test (text.toList.drop pos)) - low := by
      omega
    rw [run, if_pos enough, List.flatMap_singleton, upTo_oneOf, free, List.findSome?_map,
      cursor?_fewerAndFewer]
    apply findSome?_congr
    intro taken _
    rw [Function.comp, Nat.add_assoc]
  · have short : runLength text test (min (text.size - pos) high) pos < low := by omega
    have run : Regex.runOfTest text test looping .greedy low (some high) next (.fresh pos) =
        .failed #[] :=
      if_pos short
    rw [run, if_neg enough]
    rfl

end Passing

/-! ## Expressions -/

/-- An orderly expression tries just its lengths, in their order. -/
theorem Node.run_tried
    (text : Array Char)
    {node : Node}
    (orderly : node.orderly = true)
    (looping : Bool) :
    node.lengths.Tried text (node.run text looping) := by
  induction node generalizing looping with
  | empty => exact .stay
  | never => exact fun _ _ => rfl
  | char test => exact .oneOf test looping
  | seq first second ofFirst ofSecond =>
      obtain ⟨left, right⟩ := Bool.and_eq_true_iff.mp orderly
      exact (ofFirst left looping).andThen (ofSecond right looping)
  | alt first second ofFirst ofSecond =>
      obtain ⟨left, right⟩ := Bool.and_eq_true_iff.mp orderly
      exact (ofFirst left looping).either (ofSecond right looping) looping
  | repeated greed low high body ofBody =>
      obtain ⟨others, ofOrderly⟩ := Bool.and_eq_true_iff.mp orderly
      obtain ⟨settings, demands⟩ := Bool.and_eq_true_iff.mp others
      obtain ⟨greedy, bounded⟩ := Bool.and_eq_true_iff.mp settings
      obtain rfl := eq_of_beq greedy
      cases high with
      | none => cases bounded
      | some high =>
          intro next pos
          rw [Node.run]
          cases test? : body.test? with
          | some test =>
              obtain rfl := Node.eq_char_of_test? test?
              exact Lengths.Tried.runOfTest looping (of_decide_eq_true bounded) next pos
          | none =>
              exact (ofBody ofOrderly _).rounds (Node.lengths_taking body.onlyTests_true)
                (Node.lengths_moving demands) looping low high next pos
  | anchor _ | group _ _ _ | again _ _ | look _ _ _ _ | atomic _ _ | branch _ _ _ _ _ =>
      cases orderly

/-- What a search finds at a place is the first of the lengths that can be taken there. -/
theorem matchAt_orderly
    {regex : Regex}
    (orderly : regex.node.orderly = true)
    (anywhere : regex.opening = none)
    (text : Array Char)
    (pos : Nat) :
    regex.matchAt text false pos =
      (regex.node.lengths (text.toList.drop pos)).head?.map fun taken =>
        { start := pos, stop := pos + taken, marks := #[] } := by
  have opens : regex.mayOpen text pos = true := by rw [mayOpen, anywhere]
  have tried := Node.run_tried text orderly false (fun behind => .found behind) pos
  rw [matchAt, if_pos opens, matchFrom]
  refine (congrArg (Option.map (foundFrom pos)) tried).trans ?_
  cases regex.node.lengths (text.toList.drop pos) <;> rfl

end NoticeScan.Regex
