import NoticeScan.Proofs.Sound

/-!
# Every way is tried

A run of an expression that states no condition on the text around and cuts off no way finds
something whenever one of its ways ends where the continuation accepts. So such an expression
matches a whole text just when one of its ways leads through it.
-/

namespace NoticeScan.Regex

/-- Whether all ways of an expression can be taken: nothing in it depends on what is around or on
what has been captured, and no way that might be needed is cut off. -/
def Node.unconditional : Node → Bool
  | .empty | .never | .char _ | .anchor _ => true
  | .seq first second | .alt first second => first.unconditional && second.unconditional
  | .group _ body => body.unconditional
  | .repeated greed low high body =>
      greed == .greedy && high.all (low ≤ ·) && body.unconditional
  | .again _ _ | .look _ _ _ | .atomic _ | .branch _ _ _ => false

/-! ## Where ways lead -/

/-- Ways that lead forward, and not beyond a limit. -/
def Ways.Forward (limit : Nat) (ways : Ways) : Prop :=
  ∀ {start stop passes}, ways start stop passes →
    start ≤ stop ∧ (start < stop → stop ≤ limit)

theorem Ways.Forward.times
    {ways : Ways}
    {limit : Nat}
    (forward : ways.Forward limit)
    (count : Nat) :
    (Ways.times count ways).Forward limit := by
  induction count with
  | zero =>
      rintro start stop passes ⟨rfl, -⟩
      exact ⟨Nat.le_refl _, fun less => absurd less (Nat.lt_irrefl _)⟩
  | succ count inductionHypothesis =>
      rintro start stop passes ⟨middle, before, after, one, rest, -⟩
      have first := forward one
      have later := inductionHypothesis rest
      omega

theorem Node.ways_forward
    (text : Array Char)
    {node : Node}
    (unconditional : node.unconditional = true) :
    (node.ways text).Forward text.size := by
  induction node with
  | empty =>
      rintro start stop passes ⟨rfl, -⟩
      exact ⟨Nat.le_refl _, fun less => absurd less (Nat.lt_irrefl _)⟩
  | never => exact fun way => way.elim
  | char test =>
      rintro start stop passes ⟨⟨c, here, -⟩, rfl, -⟩
      obtain ⟨inside, -⟩ := Array.getElem?_eq_some_iff.mp here
      exact ⟨Nat.le_succ _, fun _ => inside⟩
  | anchor place =>
      rintro start stop passes ⟨-, rfl, -⟩
      exact ⟨Nat.le_refl _, fun less => absurd less (Nat.lt_irrefl _)⟩
  | seq first second ofFirst ofSecond =>
      obtain ⟨left, right⟩ := Bool.and_eq_true_iff.mp unconditional
      rintro start stop passes ⟨middle, before, after, one, other, -⟩
      have early := ofFirst left one
      have late := ofSecond right other
      omega
  | alt first second ofFirst ofSecond =>
      obtain ⟨left, right⟩ := Bool.and_eq_true_iff.mp unconditional
      rintro start stop passes (one | other)
      · exact ofFirst left one
      · exact ofSecond right other
  | group index body ofBody =>
      rintro start stop passes ⟨inner, inside, -⟩
      exact ofBody unconditional inside
  | repeated greed low high body ofBody =>
      obtain ⟨-, ofUnconditional⟩ := Bool.and_eq_true_iff.mp unconditional
      rintro start stop passes ⟨count, -, -, rounds⟩
      exact Ways.Forward.times (ofBody ofUnconditional) count rounds
  | again index folding => cases unconditional
  | look behind negated body _ => cases unconditional
  | atomic body _ => cases unconditional
  | branch index yes no _ _ => cases unconditional

/-! ## Continuations that accept a position -/

/-- A continuation finds something at a position, whatever the marks are. -/
def Accepts (next : Next) (pos : Nat) : Prop :=
  ∀ marks, ∃ last, next ⟨pos, marks⟩ = .found last

section Accepting

variable {next : Next} {pos : Nat}

theorem Accepts.lastWay
    (accepts : Accepts next pos)
    (looping : Bool) :
    Accepts (fun cursor => lastWay looping cursor next) pos := by
  intro marks
  obtain ⟨last, found⟩ := accepts marks
  refine ⟨last, ?_⟩
  unfold Regex.lastWay
  dsimp only
  rw [found]
  split <;> rfl

/-- What a run finds is not lost by what is tried before. -/
theorem Accepts.orElse
    (first second : Next)
    (accepts : Accepts first pos ∨ Accepts second pos)
    (looping : Bool) :
    Accepts (fun cursor =>
      match first cursor with
      | .found behind => .found behind
      | .failed marks => second (cursor.after looping marks)) pos := by
  intro marks
  dsimp only
  rcases accepts with early | late
  · obtain ⟨last, found⟩ := early marks
    exact ⟨last, by rw [found]⟩
  · cases first ⟨pos, marks⟩ with
    | found behind => exact ⟨behind, rfl⟩
    | failed left =>
        cases looping with
        | true => exact late marks
        | false => exact late (left.shrink marks.size)

/-! ## Repeats of a test -/

theorem fewerAndFewer_accepts
    (looping : Bool)
    {start extra count : Nat}
    (accepts : Accepts next (start + count))
    (le : count ≤ extra) :
    Accepts (fewerAndFewer looping next start extra) pos := by
  induction extra generalizing count with
  | zero =>
      have none : count = 0 := Nat.le_zero.mp le
      rw [none] at accepts
      have moved : Accepts (fun cursor => next { cursor with pos := start }) pos := accepts
      exact moved.lastWay looping
  | succ extra inductionHypothesis =>
      refine Accepts.orElse (fun cursor => next { cursor with pos := start + (extra + 1) })
        (fun cursor => fewerAndFewer looping next start extra cursor) ?_ looping
      rcases Nat.eq_or_lt_of_le le with rfl | less
      · exact Or.inl accepts
      · exact Or.inr (inductionHypothesis accepts (Nat.le_of_lt_succ less))

/-- A way of so many characters is no longer than the run of them. -/
theorem le_runLength
    {text : Array Char}
    {test : CharTest}
    {count limit start stop : Nat}
    {passes : List Pass}
    (way : Ways.times count (.oneOf text test) start stop passes)
    (le : count ≤ limit) :
    stop = start + count ∧ (0 < count → stop ≤ text.size) ∧
      count ≤ runLength text test limit start := by
  induction count generalizing limit start passes with
  | zero => exact ⟨way.1, fun positive => absurd positive (Nat.lt_irrefl 0), Nat.zero_le _⟩
  | succ count inductionHypothesis =>
      obtain ⟨middle, before, after, ⟨⟨c, here, passed⟩, rfl, -⟩, rest, -⟩ := way
      obtain ⟨more, rfl⟩ : ∃ more, limit = more + 1 := ⟨limit - 1, by omega⟩
      obtain ⟨inside, rfl⟩ := Array.getElem?_eq_some_iff.mp here
      obtain ⟨ends, within, longer⟩ := inductionHypothesis rest (Nat.le_of_succ_le_succ le)
      refine ⟨by omega, fun _ => ?_, ?_⟩
      · rcases Nat.eq_zero_or_pos count with none | positive
        · omega
        · exact within positive
      · rw [runLength, dif_pos inside, if_pos passed]
        omega

theorem runOfTest_accepts
    (looping : Bool)
    {text : Array Char}
    {test : CharTest}
    {low : Nat}
    {high : Option Nat}
    (ordered : high.all (low ≤ ·) = true)
    {start stop : Nat}
    {passes : List Pass}
    (way : Ways.between low high (.oneOf text test) start stop passes)
    (accepts : Accepts next stop) :
    Accepts (runOfTest text test looping .greedy low high next) start := by
  obtain ⟨count, least, most, rounds⟩ := way
  obtain ⟨rfl, within, -⟩ := le_runLength rounds (Nat.le_refl count)
  have allowed : count ≤ min (text.size - start) (high.getD (text.size - start)) := by
    have inText : count ≤ text.size - start := by
      rcases Nat.eq_zero_or_pos count with none | positive
      · omega
      · have := within positive
        omega
    cases high with
    | none => simpa using inText
    | some high =>
        have bounded := most high rfl
        have lowest : low ≤ high := by simpa using ordered
        rw [Option.getD_some]
        omega
  obtain ⟨-, -, longer⟩ := le_runLength rounds allowed
  intro marks
  unfold runOfTest
  dsimp only
  rw [if_neg (Nat.not_lt.mpr (Nat.le_trans least longer))]
  have reached : start + low + (count - low) = start + count := by omega
  rw [← reached] at accepts
  exact fewerAndFewer_accepts looping accepts (by omega) marks

/-! ## Repeats of an expression -/

variable {round : Next → Next} {ways : Ways}

/-- Whatever is accepted behind a way is accepted in front of it. -/
def Tries (ways : Ways) (round : Next → Next) : Prop :=
  ∀ {next : Next} {start stop : Nat} {passes : List Pass},
    ways start stop passes → Accepts next stop → Accepts (round next) start

theorem requiredRounds_accepts
    (tries : Tries ways round)
    {count start stop : Nat}
    {passes : List Pass}
    (way : Ways.times count ways start stop passes)
    (accepts : Accepts next stop) :
    Accepts (requiredRounds round next count) start := by
  induction count generalizing start passes with
  | zero =>
      obtain ⟨rfl, -⟩ := way
      exact accepts
  | succ count inductionHypothesis =>
      obtain ⟨middle, before, after, one, rest, -⟩ := way
      exact tries one (inductionHypothesis rest)

/-- Ways that get on. -/
def Ways.moving (ways : Ways) : Ways := fun start stop passes =>
  start < stop ∧ ways start stop passes

/-- Rounds that stay where they are can be left out. -/
theorem times_moving
    {count start stop : Nat}
    {passes : List Pass}
    {limit : Nat}
    (forward : ways.Forward limit)
    (way : Ways.times count ways start stop passes) :
    ∃ fewer ≤ count, ∃ rest, Ways.times fewer ways.moving start stop rest := by
  induction count generalizing start passes with
  | zero => exact ⟨0, Nat.le_refl 0, passes, way⟩
  | succ count inductionHypothesis =>
      obtain ⟨middle, before, after, one, later, -⟩ := way
      obtain ⟨fewer, le, rest, moving⟩ := inductionHypothesis later
      rcases Nat.eq_or_lt_of_le (forward one).1 with rfl | less
      · exact ⟨fewer, Nat.le_succ_of_le le, rest, moving⟩
      · exact ⟨fewer + 1, Nat.succ_le_succ le, before ++ rest, middle, before, rest,
          ⟨less, one⟩, moving, rfl⟩

theorem le_of_times_moving
    {count start stop : Nat}
    {passes : List Pass}
    (way : Ways.times count ways.moving start stop passes) :
    start + count ≤ stop := by
  induction count generalizing start passes with
  | zero => exact Nat.le_of_eq way.1.symm
  | succ count inductionHypothesis =>
      obtain ⟨middle, before, after, ⟨less, -⟩, rest, -⟩ := way
      have later := inductionHypothesis rest
      omega

theorem greedyRounds_accepts
    (tries : Tries ways round)
    {count bound start stop : Nat}
    {passes : List Pass}
    {last : Option Nat}
    (way : Ways.times count ways.moving start stop passes)
    (le : count ≤ bound)
    (moved : last ≠ some start)
    (accepts : Accepts next stop) :
    Accepts (greedyRounds round next bound last) start := by
  induction count generalizing bound start passes last with
  | zero =>
      obtain ⟨rfl, -⟩ := way
      cases bound with
      | zero => exact accepts
      | succ bound =>
          intro marks
          rw [greedyRounds, if_neg (by simpa using moved)]
          split
          · exact ⟨_, rfl⟩
          · exact accepts marks
  | succ count inductionHypothesis =>
      obtain ⟨middle, before, after, ⟨less, one⟩, rest, -⟩ := way
      obtain ⟨bound, rfl⟩ : ∃ more, bound = more + 1 := ⟨bound - 1, by omega⟩
      have further : Accepts (greedyRounds round next bound (some start)) middle :=
        inductionHypothesis rest (Nat.le_of_succ_le_succ le)
          (fun same => absurd (Option.some.inj same) (Nat.ne_of_lt less))
      intro marks
      obtain ⟨last', found⟩ := tries one further marks
      refine ⟨last', ?_⟩
      rw [greedyRounds, if_neg (by simpa using moved)]
      rw [found]

theorem rounds_accepts
    (tries : Tries ways round)
    (looping : Bool)
    {text : Array Char}
    {low : Nat}
    {high : Option Nat}
    (forward : ways.Forward text.size)
    (ordered : high.all (low ≤ ·) = true)
    {start stop : Nat}
    {passes : List Pass}
    (way : Ways.between low high ways start stop passes)
    (accepts : Accepts next stop) :
    Accepts (rounds text round looping .greedy low high next) start := by
  obtain ⟨count, least, most, all⟩ := way
  obtain ⟨free, rfl⟩ := Nat.exists_eq_add_of_le least
  rw [Ways.times_add] at all
  obtain ⟨middle, before, after, required, others, -⟩ := all
  refine requiredRounds_accepts tries required fun marks => ?_
  obtain ⟨fewer, le, rest, moving⟩ :=
    times_moving forward others
  have far := le_of_times_moving moving
  have enough : fewer ≤ freeRounds text low high ⟨middle, marks⟩ := by
    have inText : fewer ≤ text.size - middle + 1 := by
      have ends := (forward.times free others).2
      omega
    unfold freeRounds
    cases high with
    | none => exact inText
    | some high =>
        have bounded := most high rfl
        have lowest : low ≤ high := by simpa using ordered
        dsimp only
        omega
  exact greedyRounds_accepts tries moving enough (by simp) accepts marks

/-! ## Expressions -/

/-- An expression tries all of its ways. -/
theorem Node.run_tries
    (text : Array Char)
    {node : Node}
    (unconditional : node.unconditional = true)
    (looping : Bool) :
    Tries (node.ways text) (node.run text looping) := by
  induction node generalizing looping with
  | empty =>
      rintro next start stop passes ⟨rfl, -⟩ accepts
      exact accepts
  | never => exact fun way => way.elim
  | char test =>
      rintro next start stop passes ⟨⟨c, here, passed⟩, rfl, -⟩ accepts
      obtain ⟨inside, rfl⟩ := Array.getElem?_eq_some_iff.mp here
      intro marks
      rw [Node.run, dif_pos inside, if_pos passed]
      exact accepts marks
  | anchor place =>
      rintro next start stop passes ⟨holds, rfl, -⟩ accepts
      intro marks
      rw [Node.run, if_pos holds]
      exact accepts marks
  | seq first second ofFirst ofSecond =>
      obtain ⟨left, right⟩ := Bool.and_eq_true_iff.mp unconditional
      rintro next start stop passes ⟨middle, before, after, one, other, -⟩ accepts
      exact ofFirst left looping one (ofSecond right looping other accepts)
  | alt first second ofFirst ofSecond =>
      obtain ⟨left, right⟩ := Bool.and_eq_true_iff.mp unconditional
      rintro next start stop passes way accepts
      refine Accepts.orElse (first.run text looping next)
        (fun cursor => lastWay looping cursor (second.run text looping next)) ?_ looping
      rcases way with one | other
      · exact Or.inl (ofFirst left looping one accepts)
      · exact Or.inr ((ofSecond right looping other accepts).lastWay looping)
  | group index body ofBody =>
      rintro next start stop passes ⟨inner, inside, -⟩ accepts
      have closing : Accepts (fun behind : Cursor =>
          next { behind with marks := behind.marks.put (startBorder index + 1) behind.pos })
          stop := fun marks => accepts _
      exact fun marks => ofBody unconditional looping inside closing _
  | repeated greed low high body ofBody =>
      obtain ⟨settings, ofUnconditional⟩ := Bool.and_eq_true_iff.mp unconditional
      obtain ⟨greedy, ordered⟩ := Bool.and_eq_true_iff.mp settings
      obtain rfl := eq_of_beq greedy
      rintro next start stop passes way accepts
      cases test? : body.test? with
      | some test =>
          obtain rfl := Node.eq_char_of_test? test?
          exact runOfTest_accepts looping ordered way accepts
      | none =>
          intro marks
          rw [Node.run, test?]
          exact rounds_accepts (ofBody ofUnconditional _) looping
            (Node.ways_forward text ofUnconditional) ordered way accepts marks
  | again index folding => cases unconditional
  | look behind negated body _ => cases unconditional
  | atomic body _ => cases unconditional
  | branch index yes no _ _ => cases unconditional

end Accepting

/-! ## Whole texts -/

/-- An expression that tries all of its ways matches a whole text just when one of them leads
through it. -/
theorem matchesWhole_iff
    {regex : Regex}
    (unconditional : regex.node.unconditional = true)
    {low high : Nat}
    (fits : regex.node.Fits low high)
    (text : Array Char) :
    regex.matchesWhole text = true ↔ ∃ passes, regex.node.ways text 0 text.size passes := by
  rw [Regex.matchesWhole, Option.isSome_iff_exists]
  constructor
  · rintro ⟨found, is⟩
    obtain ⟨start, stop, passes, way, -⟩ := matchFrom_tells fits is
    rw [start, eq_of_beq stop] at way
    exact ⟨passes, way⟩
  · rintro ⟨passes, way⟩
    have accepts : Accepts (fun behind : Cursor =>
        if (behind.pos == text.size) = true then .found behind else .failed behind.marks)
        text.size := fun marks => ⟨⟨text.size, marks⟩, if_pos (beq_self_eq_true _)⟩
    obtain ⟨last, found⟩ := Node.run_tries text unconditional false way accepts #[]
    exact ⟨foundFrom 0 last, by rw [matchFrom, found]; rfl⟩

end NoticeScan.Regex
