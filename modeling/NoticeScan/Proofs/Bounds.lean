import NoticeScan.Proofs.Sound

/-!
# Where matches lie

A run never moves a cursor in front of where it started or beyond the end of the text, and it
marks no place beyond that end. So every match, and every group in it, lies in the text, and a
search goes from left to right.
-/

namespace NoticeScan.Regex

/-- No mark lies beyond a position. -/
def Marks.UpTo (limit : Nat) (marks : Marks) : Prop :=
  ∀ pos, some pos ∈ marks → pos ≤ limit

/-- A cursor lies between two positions, and no mark beyond the second. -/
structure Cursor.Within (low limit : Nat) (cursor : Cursor) : Prop where
  low_le : low ≤ cursor.pos
  le_limit : cursor.pos ≤ limit
  marks : cursor.marks.UpTo limit

/-- What has been found lies between two positions; what has failed marks nothing beyond. -/
def Outcome.Within (low limit : Nat) : Outcome → Prop
  | .found cursor => cursor.Within low limit
  | .failed marks => marks.UpTo limit

/-- A continuation that stays between two positions when it starts there. -/
def Confined (low limit : Nat) (next : Next) : Prop :=
  ∀ cursor : Cursor, cursor.Within low limit → (next cursor).Within low limit

/-! ## Marks -/

section Marks

variable {limit : Nat} {marks : Marks}

theorem upTo_empty
    (limit : Nat) :
    Marks.UpTo limit #[] := by
  intro pos member
  simp at member

theorem Marks.UpTo.shrink
    (upTo : marks.UpTo limit)
    (size : Nat) :
    Marks.UpTo limit (marks.shrink size) := by
  intro pos member
  obtain ⟨border, inside, same⟩ := Array.mem_iff_getElem.mp member
  rw [Array.getElem_shrink] at same
  apply upTo pos
  rw [← same]
  exact Array.getElem_mem _

theorem Marks.UpTo.put
    (upTo : marks.UpTo limit)
    (border : Nat)
    {pos : Nat}
    (le : pos ≤ limit) :
    (marks.put border pos).UpTo limit := by
  intro other member
  rw [Marks.put] at member
  by_cases known : border < marks.size
  · rw [if_pos known] at member
    rcases Array.mem_or_eq_of_mem_setIfInBounds member with before | same
    · exact upTo other before
    · rw [Option.some.inj same]
      exact le
  · rw [if_neg known] at member
    rcases Array.mem_push.mp member with before | same
    · rcases Array.mem_append.mp before with first | filled
      · exact upTo other first
      · exact absurd (Array.mem_replicate.mp filled).2 (by simp)
    · rw [Option.some.inj same]
      exact le

theorem Marks.UpTo.borders
    (upTo : marks.UpTo limit)
    {index start stop : Nat}
    (spans : marks.borders? index = some (start, stop)) :
    start ≤ limit ∧ stop ≤ limit := by
  have marked : ∀ border pos, marks.getD border none = some pos → pos ≤ limit := by
    intro border pos is
    apply upTo pos
    rw [Array.getD_eq_getD_getElem?] at is
    cases there : marks[border]? with
    | none => simp [there] at is
    | some mark =>
        rw [there, Option.getD_some] at is
        rw [← is]
        exact Array.mem_of_getElem? there
  rw [Marks.borders?] at spans
  split at spans
  · rename_i first last firstMarked lastMarked
    cases spans
    exact ⟨marked _ _ firstMarked, marked _ _ lastMarked⟩
  · cases spans

end Marks

/-! ## Cursors -/

section Cursors

variable {low limit : Nat} {cursor : Cursor} {marks : Marks}

theorem Cursor.Within.moved
    (within : cursor.Within low limit)
    {pos : Nat}
    (low_le : low ≤ pos)
    (le_limit : pos ≤ limit) :
    Cursor.Within low limit { cursor with pos := pos } :=
  ⟨low_le, le_limit, within.marks⟩

theorem Cursor.Within.after
    (within : cursor.Within low limit)
    (upTo : marks.UpTo limit)
    (looping : Bool) :
    (cursor.after looping marks).Within low limit := by
  cases looping with
  | true => exact within
  | false => exact ⟨within.low_le, within.le_limit, upTo.shrink _⟩

end Cursors

/-! ## Choices -/

section Choices

variable {low limit : Nat} {first second next : Next}

theorem confined_found
    (low limit : Nat) :
    Confined low limit .found :=
  fun _ within => within

/-- One thing is tried, and another one when it fails. -/
theorem Confined.orElse
    (one : Confined low limit first)
    (other : Confined low limit second)
    (looping : Bool) :
    Confined low limit fun cursor =>
      match first cursor with
      | .found behind => .found behind
      | .failed marks => second (cursor.after looping marks) := by
  intro cursor within
  have stays := one cursor within
  cases outcome : first cursor with
  | found behind =>
      rw [outcome] at stays
      simp only [outcome]
      exact stays
  | failed marks =>
      rw [outcome] at stays
      simp only [outcome]
      exact other _ (within.after stays looping)

theorem Confined.lastWay
    (confined : Confined low limit next)
    (looping : Bool) :
    Confined low limit (fun cursor => lastWay looping cursor next) := by
  intro cursor within
  have stays := confined cursor within
  unfold Regex.lastWay
  cases looping with
  | false => exact stays
  | true =>
      cases outcome : next cursor with
      | found behind =>
          rw [outcome] at stays
          simp only [outcome, if_true]
          exact stays
      | failed marks =>
          simp only [outcome, if_true]
          exact within.marks

theorem Confined.moved
    (confined : Confined low limit next)
    {pos : Nat}
    (low_le : low ≤ pos)
    (le_limit : pos ≤ limit) :
    Confined low limit fun cursor => next { cursor with pos := pos } :=
  fun _ within => confined _ (within.moved low_le le_limit)

end Choices

/-! ## Repeats of a test -/

section Tests

variable {low limit : Nat} {next : Next}

theorem confined_fewerAndFewer
    (confined : Confined low limit next)
    (looping : Bool)
    {start extra : Nat}
    (low_le : low ≤ start)
    (le_limit : start + extra ≤ limit) :
    Confined low limit (fewerAndFewer looping next start extra) := by
  induction extra with
  | zero => exact (confined.moved low_le le_limit).lastWay looping
  | succ extra inductionHypothesis =>
      have farthest : Confined low limit fun cursor =>
          next { cursor with pos := start + (extra + 1) } :=
        confined.moved (by omega) le_limit
      exact farthest.orElse (inductionHypothesis (by omega)) looping

theorem confined_moreAndMore
    (confined : Confined low limit next)
    (looping : Bool)
    {start extra : Nat}
    (low_le : low ≤ start)
    (le_limit : start + extra ≤ limit) :
    Confined low limit (moreAndMore looping next start extra) := by
  induction extra generalizing start with
  | zero => exact (confined.moved low_le le_limit).lastWay looping
  | succ extra inductionHypothesis =>
      have nearest : Confined low limit fun cursor => next { cursor with pos := start } :=
        confined.moved low_le (by omega)
      exact nearest.orElse (inductionHypothesis (by omega) (by omega)) looping

theorem confined_runOfTest
    {text : Array Char}
    (confined : Confined low text.size next)
    (test : CharTest)
    (looping : Bool)
    (greed : Greed)
    (least : Nat)
    (most : Option Nat) :
    Confined low text.size (runOfTest text test looping greed least most next) := by
  intro cursor within
  have counted := runLength_le text test
    (min (text.size - cursor.pos) (most.getD (text.size - cursor.pos))) cursor.pos
  have low_le := within.low_le
  have le_limit := within.le_limit
  unfold runOfTest
  dsimp only
  split
  · exact within.marks
  · cases greed with
    | greedy => exact confined_fewerAndFewer confined looping (by omega) (by omega) cursor within
    | lazy => exact confined_moreAndMore confined looping (by omega) (by omega) cursor within
    | possessive => exact confined _ (within.moved (by omega) (by omega))

/-- Equal stretches of a text lie in it. -/
theorem le_size_of_sameText
    {text : Array Char}
    {folding : Folding}
    {count i j : Nat}
    (same : sameText text folding count i j = true)
    (within : j ≤ text.size) :
    j + count ≤ text.size := by
  induction count generalizing i j with
  | zero => exact within
  | succ count inductionHypothesis =>
      rw [sameText] at same
      split at same
      · rename_i c d _ there
        have inside : j < text.size := (Array.getElem?_eq_some_iff.mp there).1
        have rest := inductionHypothesis (Bool.and_eq_true_iff.mp same).2 inside
        omega
      · cases same

end Tests

/-! ## Repeats of an expression -/

section Rounds

variable {low limit : Nat} {next : Next} {round : Next → Next}

theorem confined_requiredRounds
    (confined : Confined low limit next)
    (ofRound : ∀ inner, Confined low limit inner → Confined low limit (round inner))
    (count : Nat) :
    Confined low limit (requiredRounds round next count) := by
  induction count with
  | zero => exact confined
  | succ count inductionHypothesis => exact ofRound _ inductionHypothesis

theorem confined_greedyRounds
    (confined : Confined low limit next)
    (ofRound : ∀ inner, Confined low limit inner → Confined low limit (round inner))
    (count : Nat)
    (last : Option Nat) :
    Confined low limit (greedyRounds round next count last) := by
  induction count generalizing last with
  | zero => exact confined
  | succ count inductionHypothesis =>
      intro cursor within
      rw [greedyRounds]
      split
      · exact confined cursor within
      · have further := ofRound _ (inductionHypothesis (some cursor.pos))
        exact (further.orElse confined true) cursor within

theorem confined_lazyRounds
    (confined : Confined low limit next)
    (ofRound : ∀ inner, Confined low limit inner → Confined low limit (round inner))
    (looping : Bool)
    (count : Nat)
    (last : Option Nat) :
    Confined low limit (lazyRounds looping round next count last) := by
  induction count generalizing last with
  | zero => exact confined.lastWay looping
  | succ count inductionHypothesis =>
      intro cursor within
      have further := ofRound _ (inductionHypothesis (some cursor.pos))
      have stays := confined cursor within
      rw [lazyRounds]
      cases outcome : next cursor with
      | found behind =>
          rw [outcome] at stays
          exact stays
      | failed marks =>
          rw [outcome] at stays
          have again := within.after stays looping
          dsimp only
          split
          · exact again.marks
          · exact further _ again

theorem confined_firmRounds
    (ofRound : ∀ inner, Confined low limit inner → Confined low limit (round inner))
    (count : Nat) :
    Confined low limit (firmRounds round count) := by
  induction count with
  | zero => exact confined_found low limit
  | succ count inductionHypothesis =>
      intro cursor within
      have stays := ofRound .found (confined_found low limit) cursor within
      rw [firmRounds]
      cases outcome : round .found cursor with
      | found behind =>
          rw [outcome] at stays
          exact inductionHypothesis behind stays
      | failed marks =>
          rw [outcome] at stays
          exact stays

theorem within_allRounds
    (ofRound : ∀ inner, Confined low limit inner → Confined low limit (round inner))
    (count : Nat)
    (last : Option Nat)
    {cursor : Cursor}
    (within : cursor.Within low limit) :
    (allRounds round count last cursor).Within low limit := by
  induction count generalizing last cursor with
  | zero => exact within
  | succ count inductionHypothesis =>
      have stays := ofRound .found (confined_found low limit) cursor within
      rw [allRounds]
      split
      · exact within
      · cases outcome : round .found cursor with
        | found behind =>
            rw [outcome] at stays
            exact inductionHypothesis _ stays
        | failed marks => exact within

theorem confined_rounds
    (text : Array Char)
    (confined : Confined low limit next)
    (ofRound : ∀ inner, Confined low limit inner → Confined low limit (round inner))
    (looping : Bool)
    (greed : Greed)
    (least : Nat)
    (most : Option Nat) :
    Confined low limit (rounds text round looping greed least most next) := by
  intro cursor within
  cases greed with
  | greedy =>
      have free : Confined low limit fun behind =>
          greedyRounds round next (freeRounds text least most behind) none behind :=
        fun behind => confined_greedyRounds confined ofRound _ none behind
      exact confined_requiredRounds free ofRound least cursor within
  | lazy =>
      have free : Confined low limit fun behind =>
          lazyRounds looping round next (freeRounds text least most behind) none behind :=
        fun behind => confined_lazyRounds confined ofRound looping _ none behind
      exact confined_requiredRounds free ofRound least cursor within
  | possessive =>
      have firm := confined_firmRounds ofRound least cursor within
      rw [rounds]
      cases outcome : firmRounds round least cursor with
      | found behind =>
          rw [outcome] at firm
          exact confined _ (within_allRounds ofRound _ none firm)
      | failed marks =>
          rw [outcome] at firm
          exact firm

end Rounds

/-! ## Expressions -/

/-- An expression stays between a position in front of it and the end of the text. -/
theorem Node.run_confined
    (text : Array Char)
    (node : Node)
    (looping : Bool)
    {low : Nat}
    {next : Next}
    (confined : Confined low text.size next) :
    Confined low text.size (node.run text looping next) := by
  induction node generalizing looping low next with
  | empty => exact confined
  | never => exact fun cursor within => within.marks
  | char test =>
      intro cursor within
      rw [Node.run]
      split
      · rename_i inside
        split
        · exact confined _ (within.moved (Nat.le_succ_of_le within.low_le) inside)
        · exact within.marks
      · exact within.marks
  | anchor place =>
      intro cursor within
      rw [Node.run]
      split
      · exact confined cursor within
      · exact within.marks
  | seq first second ofFirst ofSecond =>
      exact ofFirst looping (ofSecond looping confined)
  | alt first second ofFirst ofSecond =>
      exact (ofFirst looping confined).orElse ((ofSecond looping confined).lastWay looping) looping
  | group index body ofBody =>
      intro cursor within
      have closing : Confined low text.size fun behind =>
          next { behind with marks := behind.marks.put (startBorder index + 1) behind.pos } :=
        fun behind inside => confined _
          ⟨inside.low_le, inside.le_limit, inside.marks.put _ inside.le_limit⟩
      exact ofBody looping closing _
        ⟨within.low_le, within.le_limit, within.marks.put _ within.le_limit⟩
  | again index folding =>
      intro cursor within
      rw [Node.run]
      split
      · split
        · rename_i same
          have inside := le_size_of_sameText same within.le_limit
          exact confined _ (within.moved (Nat.le_add_right_of_le within.low_le) inside)
        · exact within.marks
      · exact within.marks
  | look behind negated body ofBody =>
      intro cursor within
      -- A condition on what is behind starts in front of the lower bound.
      have backwards : Cursor.Within 0 text.size
          { cursor with pos := cursor.pos - behind.getD 0 } :=
        ⟨Nat.zero_le _, Nat.le_trans (Nat.sub_le _ _) within.le_limit, within.marks⟩
      have stays := ofBody looping (confined_found 0 text.size) _ backwards
      unfold Node.run
      dsimp only
      split
      · cases outcome : body.run text looping .found
            { cursor with pos := cursor.pos - behind.getD 0 } with
        | found seen =>
            rw [outcome] at stays
            cases negated with
            | false => exact confined _ ⟨within.low_le, within.le_limit, stays.marks⟩
            | true => exact stays.marks
        | failed marks =>
            rw [outcome] at stays
            cases negated with
            | false => exact stays
            | true => exact confined _ (within.after stays looping)
      · split
        · exact confined cursor within
        · exact within.marks
  | atomic body ofBody =>
      intro cursor within
      have stays := ofBody looping (confined_found low text.size) cursor within
      rw [Node.run]
      cases outcome : body.run text looping .found cursor with
      | found behind =>
          rw [outcome] at stays
          exact confined behind stays
      | failed marks =>
          rw [outcome] at stays
          exact stays
  | repeated greed least most body ofBody =>
      intro cursor within
      rw [Node.run]
      split
      · exact confined_runOfTest confined _ looping greed least most cursor within
      · exact confined_rounds text confined (fun inner inside => ofBody _ inside) looping greed
          least most cursor within
  | branch index yes no ofYes ofNo =>
      intro cursor within
      rw [Node.run]
      split
      · exact ofYes looping confined cursor within
      · exact ofNo looping confined cursor within

/-! ## Matches -/

/-- A match lies in a text, and so does every group in it. -/
structure Found.Inside (found : Found) (text : Array Char) : Prop where
  start_le : found.start ≤ found.stop
  stop_le : found.stop ≤ text.size
  groups : ∀ index start stop, found.group? index = some (start, stop) →
    start ≤ text.size ∧ stop ≤ text.size

section Matches

variable {regex : Regex} {text : Array Char} {pos : Nat} {found : Found}

theorem matchFrom_inside
    {accepts : Nat → Bool}
    (is : regex.matchFrom text accepts pos = some found)
    (within : pos ≤ text.size) :
    found.start = pos ∧ found.Inside text := by
  have confined : Confined pos text.size fun behind : Cursor =>
      if accepts behind.pos then .found behind else .failed behind.marks := by
    intro cursor inside
    dsimp only
    split
    · exact inside
    · exact inside.marks
  have stays := Node.run_confined text regex.node false confined ⟨pos, #[]⟩
    ⟨Nat.le_refl pos, within, upTo_empty text.size⟩
  rw [matchFrom] at is
  obtain ⟨behind, outcome, rfl⟩ := Option.map_eq_some_iff.mp is
  revert stays outcome
  cases regex.node.run text false _ ⟨pos, #[]⟩ with
  | failed marks =>
      intro _ outcome
      cases outcome
  | found last =>
      intro stays outcome
      cases outcome
      exact ⟨rfl, stays.low_le, stays.le_limit, fun _ _ _ spans => stays.marks.borders spans⟩

theorem matchAt_inside
    {moving : Bool}
    (is : regex.matchAt text moving pos = some found)
    (within : pos ≤ text.size) :
    found.start = pos ∧ found.Inside text := by
  rw [matchAt] at is
  split at is
  · exact matchFrom_inside is within
  · cases is

theorem searchFrom_inside
    {more : Nat}
    {moving : Bool}
    (is : regex.searchFrom text more moving pos = some found)
    (within : pos + more ≤ text.size) :
    pos ≤ found.start ∧ found.Inside text := by
  induction more generalizing moving pos with
  | zero =>
      obtain ⟨start, inside⟩ := matchAt_inside is within
      exact ⟨start.ge, inside⟩
  | succ more inductionHypothesis =>
      rw [searchFrom] at is
      cases here : regex.matchAt text moving pos with
      | none =>
          rw [here] at is
          obtain ⟨start, inside⟩ := inductionHypothesis is (by omega)
          exact ⟨Nat.le_of_succ_le start, inside⟩
      | some other =>
          rw [here] at is
          cases is
          obtain ⟨start, inside⟩ := matchAt_inside here (by omega)
          exact ⟨start.ge, inside⟩

/-- A search goes on behind the match that it has found, which lies in what was left. -/
theorem next?_inside
    {search after : Search}
    (is : regex.next? text search = some (found, after))
    (within : search.pos ≤ text.size) :
    search.pos ≤ found.start ∧ found.Inside text ∧ after.pos = found.stop := by
  rw [next?] at is
  obtain ⟨other, here, same⟩ := Option.map_eq_some_iff.mp is
  cases same
  obtain ⟨start, inside⟩ := searchFrom_inside here (by omega)
  exact ⟨start, inside, rfl⟩

end Matches

end NoticeScan.Regex
