import NoticeScan.Proofs.Fits
import NoticeScan.Regex.Search

/-!
# What a run finds

A run that finds something has followed one of the ways of its expression, and the marks it ends
up with are those it started with and the passes of that way.
-/

namespace NoticeScan.Regex

/-- Whenever `inner` finds something, it has taken a way and run `next` behind it, with the
passes of the way recorded. Outside of repeats this is asked for only as long as few borders have
been marked. -/
def Follows (looping : Bool) (few : Nat) (ways : Ways) (low high : Nat) (next inner : Next) :
    Prop :=
  ∀ cursor last, (looping = false → cursor.marks.size ≤ few) → inner cursor = .found last →
    ∃ stop passes, ways cursor.pos stop passes ∧ Marks.Between low high passes ∧
      next ⟨stop, cursor.marks.record passes⟩ = .found last

namespace Follows

variable {looping : Bool} {few low high : Nat} {next inner : Next} {ways : Ways}

theorem weaken
    (follows : Follows true few ways low high next inner)
    (looping : Bool)
    (other : Nat) :
    Follows looping other ways low high next inner :=
  fun cursor last _ found => follows cursor last (by simp) found

theorem imp
    {others : Ways}
    (follows : Follows looping few ways low high next inner)
    (sub : ∀ start stop passes, ways start stop passes → others start stop passes) :
    Follows looping few others low high next inner := by
  intro cursor last small found
  obtain ⟨stop, passes, way, inside, reached⟩ := follows cursor last small found
  exact ⟨stop, passes, sub _ _ _ way, inside, reached⟩

theorem self
    (looping : Bool)
    (few low high : Nat)
    (next : Next) :
    Follows looping few .stay low high next next := by
  intro cursor last _ found
  exact ⟨cursor.pos, [], ⟨rfl, rfl⟩, Marks.between_nil low high, found⟩

theorem failed
    (looping : Bool)
    (few low high : Nat)
    (ways : Ways)
    (next : Next) :
    Follows looping few ways low high next (fun cursor => .failed cursor.marks) := by
  intro cursor last _ found
  cases found

/-- One way after another. The second one starts with the marks of the first. -/
theorem andThen
    {middle fewer : Nat}
    {between : Next}
    {second : Ways}
    (one : Follows looping few ways low middle between inner)
    (other : Follows looping fewer second middle high next between)
    (le : few ≤ fewer)
    (ordered : low ≤ middle ∧ middle ≤ high ∧ middle ≤ fewer) :
    Follows looping few (ways.andThen second) low high next inner := by
  intro cursor last small found
  obtain ⟨stop, before, first, insideFirst, reached⟩ := one cursor last small found
  have stillSmall : looping = false → (cursor.marks.record before).size ≤ fewer := fun calm =>
    Nat.le_trans
      (Marks.size_record_le (Nat.le_trans (small calm) (Nat.le_max_left few middle))
        (insideFirst.mono (Nat.le_refl low) (Nat.le_max_right few middle)))
      (Nat.max_le.mpr ⟨le, ordered.2.2⟩)
  obtain ⟨last', after, next', insideSecond, done⟩ := other _ last stillSmall reached
  refine ⟨last', before ++ after, ⟨stop, before, after, first, next', rfl⟩, ?_, ?_⟩
  · exact (insideFirst.mono (Nat.le_refl low) ordered.2.1).append
      (insideSecond.mono ordered.1 (Nat.le_refl high))
  · rw [Marks.record_append]
    exact done

end Follows

/-- A cursor is as it was when a way from it has been given up. -/
theorem after_eq
    {looping : Bool}
    {few : Nat}
    {cursor : Cursor}
    {marks : Marks}
    (small : looping = false → cursor.marks.size ≤ few)
    (kept : looping = false → Marks.KeepsBelow few cursor.marks marks) :
    cursor.after looping marks = cursor := by
  unfold Cursor.after
  cases looping with
  | true => rfl
  | false =>
      simp only [Bool.false_eq_true, if_false]
      rw [(kept rfl).shrink_eq (small rfl)]

theorem found_of_lastWay
    {looping : Bool}
    {cursor last : Cursor}
    {inner : Next}
    (found : lastWay looping cursor inner = .found last) :
    inner cursor = .found last := by
  unfold lastWay at found
  cases looping with
  | false => exact found
  | true =>
      cases outcome : inner cursor with
      | found behind =>
          rw [outcome] at found
          exact found
      | failed marks =>
          rw [outcome] at found
          cases found

/-- One thing is tried, and another one when it fails. -/
theorem Follows.orElse
    {looping : Bool}
    {low high : Nat}
    {next first second : Next}
    {one other : Ways}
    (steady : looping = false → Steady low first)
    (ofFirst : Follows looping low one low high next first)
    (ofSecond : Follows looping low other low high next second) :
    Follows looping low (one.either other) low high next fun cursor =>
      match first cursor with
      | .found behind => .found behind
      | .failed marks => second (cursor.after looping marks) := by
  intro cursor last small found
  cases outcome : first cursor with
  | found behind =>
      simp only [outcome] at found
      cases found
      obtain ⟨stop, passes, way, inside, reached⟩ := ofFirst cursor _ small outcome
      exact ⟨stop, passes, Or.inl way, inside, reached⟩
  | failed marks =>
      simp only [outcome] at found
      rw [after_eq small fun calm => steady calm cursor marks outcome] at found
      obtain ⟨stop, passes, way, inside, reached⟩ := ofSecond cursor last small found
      exact ⟨stop, passes, Or.inr way, inside, reached⟩

/-! ## Repeats of a test -/

theorem times_runLength
    (text : Array Char)
    (test : CharTest)
    (limit pos count : Nat)
    (le : count ≤ runLength text test limit pos) :
    Ways.times count (.oneOf text test) pos (pos + count) [] := by
  induction count generalizing limit pos with
  | zero => exact ⟨rfl, rfl⟩
  | succ count inductionHypothesis =>
      cases limit with
      | zero => simp [runLength] at le
      | succ limit =>
          unfold runLength at le
          split at le
          · rename_i inside
            split at le
            · rename_i passed
              have rest := inductionHypothesis limit (pos + 1) (by omega)
              refine ⟨pos + 1, [], [], ⟨⟨text[pos], ?_, passed⟩, rfl, rfl⟩, ?_, rfl⟩
              · exact Array.getElem?_eq_getElem inside
              · rw [show pos + (count + 1) = pos + 1 + count by omega]
                exact rest
            · omega
          · omega

theorem runLength_le
    (text : Array Char)
    (test : CharTest)
    (limit pos : Nat) :
    runLength text test limit pos ≤ limit := by
  induction limit generalizing pos with
  | zero => exact Nat.le_refl 0
  | succ limit inductionHypothesis =>
      unfold runLength
      have rest := inductionHypothesis (pos + 1)
      split
      · split
        · omega
        · omega
      · omega

section Runs

variable {looping : Bool} {bound : Nat} {next : Next}

theorem found_of_fewerAndFewer
    (steady : looping = false → Steady bound next)
    {start extra : Nat}
    {cursor last : Cursor}
    (small : looping = false → cursor.marks.size ≤ bound)
    (found : fewerAndFewer looping next start extra cursor = .found last) :
    ∃ count ≤ extra, next ⟨start + count, cursor.marks⟩ = .found last := by
  induction extra with
  | zero => exact ⟨0, Nat.le_refl 0, found_of_lastWay found⟩
  | succ extra inductionHypothesis =>
      unfold fewerAndFewer at found
      cases outcome : next { cursor with pos := start + (extra + 1) } with
      | found behind =>
          simp only [outcome] at found
          cases found
          exact ⟨extra + 1, Nat.le_refl _, outcome⟩
      | failed marks =>
          simp only [outcome] at found
          have kept : looping = false → Marks.KeepsBelow bound cursor.marks marks :=
            fun calm => steady calm { cursor with pos := start + (extra + 1) } marks outcome
          rw [after_eq small kept] at found
          obtain ⟨count, le, reached⟩ := inductionHypothesis found
          exact ⟨count, Nat.le_succ_of_le le, reached⟩

theorem found_of_moreAndMore
    (steady : looping = false → Steady bound next)
    {start extra : Nat}
    {cursor last : Cursor}
    (small : looping = false → cursor.marks.size ≤ bound)
    (found : moreAndMore looping next start extra cursor = .found last) :
    ∃ count ≤ extra, next ⟨start + count, cursor.marks⟩ = .found last := by
  induction extra generalizing start with
  | zero => exact ⟨0, Nat.le_refl 0, found_of_lastWay found⟩
  | succ extra inductionHypothesis =>
      unfold moreAndMore at found
      cases outcome : next { cursor with pos := start } with
      | found behind =>
          simp only [outcome] at found
          cases found
          exact ⟨0, Nat.zero_le _, outcome⟩
      | failed marks =>
          simp only [outcome] at found
          have kept : looping = false → Marks.KeepsBelow bound cursor.marks marks :=
            fun calm => steady calm { cursor with pos := start } marks outcome
          rw [after_eq small kept] at found
          obtain ⟨count, le, reached⟩ := inductionHypothesis found
          refine ⟨count + 1, Nat.succ_le_succ le, ?_⟩
          rw [show start + (count + 1) = start + 1 + count by omega]
          exact reached

theorem follows_runOfTest
    {low high : Nat}
    (steady : looping = false → Steady high next)
    (le : low ≤ high)
    (text : Array Char)
    (test : CharTest)
    (greed : Greed)
    (atLeast : Nat)
    (atMost : Option Nat) :
    Follows looping low (Ways.between atLeast atMost (.oneOf text test)) low high next
      (runOfTest text test looping greed atLeast atMost next) := by
  intro cursor last small found
  unfold runOfTest at found
  simp only at found
  have few : looping = false → cursor.marks.size ≤ high :=
    fun calm => Nat.le_trans (small calm) le
  generalize limited : min (text.size - cursor.pos) (atMost.getD (text.size - cursor.pos)) = limit
    at found
  generalize counted : runLength text test limit cursor.pos = count at found
  split at found
  · cases found
  · rename_i enough
    -- Whatever is tried first, some number of characters between the bounds is taken.
    have some : ∃ extra ≤ count - atLeast,
        next ⟨cursor.pos + atLeast + extra, cursor.marks⟩ = .found last := by
      cases greed with
      | greedy => exact found_of_fewerAndFewer steady few found
      | lazy => exact found_of_moreAndMore steady few found
      | possessive =>
          refine ⟨count - atLeast, Nat.le_refl _, ?_⟩
          rw [show cursor.pos + atLeast + (count - atLeast) = cursor.pos + count by omega]
          exact found
    obtain ⟨extra, fits, reached⟩ := some
    have limits := runLength_le text test limit cursor.pos
    refine ⟨cursor.pos + (atLeast + extra), [], ⟨atLeast + extra, by omega, ?_, ?_⟩, ?_, ?_⟩
    · intro most bounded
      cases bounded
      simp only [Option.getD_some] at limited
      omega
    · exact times_runLength text test limit cursor.pos _ (by omega)
    · exact Marks.between_nil low high
    · rw [← Nat.add_assoc]
      exact reached

end Runs

/-! ## Repeats of an expression -/

/-- At most a number of ways of one kind. -/
def Ways.upTo (count : Nat) (ways : Ways) : Ways := fun start stop passes =>
  ∃ taken ≤ count, Ways.times taken ways start stop passes

section Rounds

variable {low high : Nat} {next : Next} {round : Next → Next} {ways : Ways}

theorem follows_requiredRounds
    {looping : Bool}
    {few : Nat}
    {between : Next}
    {rest : Ways}
    (ofRound : ∀ inner, Follows true high ways low high inner (round inner))
    (ofRest : Follows looping high rest low high next between)
    (le : few ≤ high)
    (count : Nat) :
    Follows looping few ((Ways.times count ways).andThen rest) low high next
      (requiredRounds round between count) := by
  induction count generalizing few with
  | zero =>
      rw [Ways.times, Ways.stay_andThen]
      intro cursor last small
      exact ofRest cursor last fun calm => Nat.le_trans (small calm) le
  | succ count inductionHypothesis =>
      rw [Ways.times, Ways.andThen_assoc]
      intro cursor last small found
      obtain ⟨stop, before, first, inside, reached⟩ :=
        ofRound _ cursor last (by simp) found
      have stillSmall : looping = false → (cursor.marks.record before).size ≤ high :=
        fun calm => Marks.size_record_le (Nat.le_trans (small calm) le) inside
      obtain ⟨last', after, others, insideRest, done⟩ :=
        inductionHypothesis (Nat.le_refl high) _ last stillSmall reached
      refine ⟨last', before ++ after, ⟨stop, before, after, first, others, rfl⟩,
        inside.append insideRest, ?_⟩
      rw [Marks.record_append]
      exact done

theorem follows_greedyRounds
    (ofRound : ∀ inner, Follows true high ways low high inner (round inner))
    (count : Nat)
    (previous : Option Nat) :
    Follows true high (Ways.upTo count ways) low high next
      (greedyRounds round next count previous) := by
  induction count generalizing previous with
  | zero =>
      exact (Follows.self true high low high next).imp fun start stop passes stayed =>
        ⟨0, Nat.le_refl 0, stayed⟩
  | succ count inductionHypothesis =>
      intro cursor last small found
      have none : next cursor = .found last → ∃ stop passes,
          Ways.upTo (count + 1) ways cursor.pos stop passes ∧ Marks.Between low high passes ∧
            next ⟨stop, cursor.marks.record passes⟩ = .found last := fun reached =>
        ⟨cursor.pos, [], ⟨0, Nat.zero_le _, rfl, rfl⟩, Marks.between_nil low high, reached⟩
      unfold greedyRounds at found
      split at found
      · exact none found
      · cases outcome : round (greedyRounds round next count (some cursor.pos)) cursor with
        | failed marks =>
            simp only [outcome] at found
            exact none found
        | found behind =>
            simp only [outcome] at found
            cases found
            obtain ⟨stop, before, first, inside, reached⟩ := ofRound _ cursor _ small outcome
            obtain ⟨last', after, ⟨taken, le, others⟩, insideRest, done⟩ :=
              inductionHypothesis (some cursor.pos) _ _ (by simp) reached
            refine ⟨last', before ++ after,
              ⟨taken + 1, Nat.succ_le_succ le, stop, before, after, first, others, rfl⟩,
              inside.append insideRest, ?_⟩
            rw [Marks.record_append]
            exact done

theorem follows_lazyRounds
    {looping : Bool}
    (steady : looping = false → Steady high next)
    (ofRound : ∀ inner, Follows true high ways low high inner (round inner))
    (count : Nat)
    (previous : Option Nat) :
    Follows looping high (Ways.upTo count ways) low high next
      (lazyRounds looping round next count previous) := by
  induction count generalizing previous with
  | zero =>
      intro cursor last _ found
      exact ⟨cursor.pos, [], ⟨0, Nat.le_refl 0, rfl, rfl⟩, Marks.between_nil low high,
        found_of_lastWay found⟩
  | succ count inductionHypothesis =>
      intro cursor last small found
      unfold lazyRounds at found
      cases outcome : next cursor with
      | found behind =>
          simp only [outcome] at found
          cases found
          exact ⟨cursor.pos, [], ⟨0, Nat.zero_le _, rfl, rfl⟩, Marks.between_nil low high, outcome⟩
      | failed marks =>
          simp only [outcome] at found
          rw [after_eq small fun calm => steady calm cursor marks outcome] at found
          split at found
          · cases found
          · obtain ⟨stop, before, first, inside, reached⟩ :=
              ofRound _ cursor last (by simp) found
            have stillSmall : looping = false → (cursor.marks.record before).size ≤ high :=
              fun calm => Marks.size_record_le (small calm) inside
            obtain ⟨last', after, ⟨taken, le, others⟩, insideRest, done⟩ :=
              inductionHypothesis (some cursor.pos) _ last stillSmall reached
            refine ⟨last', before ++ after,
              ⟨taken + 1, Nat.succ_le_succ le, stop, before, after, first, others, rfl⟩,
              inside.append insideRest, ?_⟩
            rw [Marks.record_append]
            exact done

theorem follows_firmRounds
    {looping : Bool}
    (ofRound : Follows looping low ways low low .found (round .found))
    (count : Nat) :
    Follows looping low (Ways.times count ways) low low .found (firmRounds round count) := by
  induction count with
  | zero => exact Follows.self looping low low low .found
  | succ count inductionHypothesis =>
      intro cursor last small found
      unfold firmRounds at found
      cases outcome : round .found cursor with
      | failed marks =>
          simp only [outcome] at found
          cases found
      | found behind =>
          simp only [outcome] at found
          obtain ⟨stop, before, first, inside, reached⟩ := ofRound cursor behind small outcome
          cases reached
          cases inside.eq_nil
          obtain ⟨last', after, others, insideRest, done⟩ :=
            inductionHypothesis ⟨stop, cursor.marks⟩ last small found
          exact ⟨last', after, ⟨stop, [], after, first, others, rfl⟩, insideRest, done⟩

theorem follows_allRounds
    {looping : Bool}
    (ofRound : Follows looping low ways low low .found (round .found))
    (count : Nat)
    (previous : Option Nat)
    (cursor : Cursor)
    (small : looping = false → cursor.marks.size ≤ low) :
    Ways.upTo count ways cursor.pos (allRounds round count previous cursor).pos [] ∧
      (allRounds round count previous cursor).marks = cursor.marks := by
  induction count generalizing previous cursor with
  | zero => exact ⟨⟨0, Nat.le_refl 0, rfl, rfl⟩, rfl⟩
  | succ count inductionHypothesis =>
      unfold allRounds
      split
      · exact ⟨⟨0, Nat.zero_le _, rfl, rfl⟩, rfl⟩
      · cases outcome : round .found cursor with
        | failed marks => exact ⟨⟨0, Nat.zero_le _, rfl, rfl⟩, rfl⟩
        | found behind =>
            obtain ⟨stop, before, first, inside, reached⟩ := ofRound cursor behind small outcome
            cases reached
            cases inside.eq_nil
            obtain ⟨⟨taken, le, others⟩, same⟩ :=
              inductionHypothesis (some cursor.pos) ⟨stop, cursor.marks⟩ small
            exact ⟨⟨taken + 1, Nat.succ_le_succ le, stop, [], [], first, others, rfl⟩, same⟩

/-- The numbers of required and of free rounds are within the bounds of a repeat. -/
theorem Ways.between_of_free
    {start stop : Nat}
    {passes : List Pass}
    {text : Array Char}
    {atLeast : Nat}
    {atMost : Option Nat}
    {cursor : Cursor}
    {free : Nat}
    (le : free ≤ freeRounds text atLeast atMost cursor)
    (way : Ways.times (atLeast + free) ways start stop passes) :
    Ways.between atLeast atMost ways start stop passes := by
  refine ⟨atLeast + free, Nat.le_add_right _ _, ?_, way⟩
  intro most bounded
  cases bounded
  simp only [freeRounds] at le
  omega

theorem follows_rounds
    {looping : Bool}
    (steady : looping = false → Steady high next)
    (le : low ≤ high)
    (text : Array Char)
    (atLeast : Nat)
    (atMost : Option Nat)
    (greed : Greed)
    (ofRound : greed ≠ .possessive →
      ∀ inner, Follows true high ways low high inner (round inner))
    (ofFirm : greed = .possessive → Follows looping low ways low low .found (round .found)) :
    Follows looping low (Ways.between atLeast atMost ways) low high next
      (rounds text round looping greed atLeast atMost next) := by
  cases greed with
  | greedy =>
      have each := ofRound (by decide)
      intro cursor last small found
      have free : Follows looping high
          (fun start stop passes => ∃ behind : Cursor,
            Ways.upTo (freeRounds text atLeast atMost behind) ways start stop passes)
          low high next
          (fun behind =>
            greedyRounds round next (freeRounds text atLeast atMost behind) none behind) := by
        intro behind last _ found
        obtain ⟨stop, passes, way, inside, reached⟩ :=
          follows_greedyRounds each _ none behind last (by simp) found
        exact ⟨stop, passes, ⟨behind, way⟩, inside, reached⟩
      obtain ⟨stop, passes, ⟨middle, before, after, first, ⟨_, taken, few, others⟩, rfl⟩,
          inside, reached⟩ :=
        follows_requiredRounds each free le atLeast cursor last small found
      refine ⟨stop, before ++ after, Ways.between_of_free few ?_, inside, reached⟩
      rw [Ways.times_add]
      exact ⟨middle, before, after, first, others, rfl⟩
  | lazy =>
      have each := ofRound (by decide)
      intro cursor last small found
      have free : Follows looping high
          (fun start stop passes => ∃ behind : Cursor,
            Ways.upTo (freeRounds text atLeast atMost behind) ways start stop passes)
          low high next
          (fun behind =>
            lazyRounds looping round next (freeRounds text atLeast atMost behind) none
              behind) := by
        intro behind last little found
        obtain ⟨stop, passes, way, inside, reached⟩ :=
          follows_lazyRounds steady each _ none behind last little found
        exact ⟨stop, passes, ⟨behind, way⟩, inside, reached⟩
      obtain ⟨stop, passes, ⟨middle, before, after, first, ⟨_, taken, few, others⟩, rfl⟩,
          inside, reached⟩ :=
        follows_requiredRounds each free le atLeast cursor last small found
      refine ⟨stop, before ++ after, Ways.between_of_free few ?_, inside, reached⟩
      rw [Ways.times_add]
      exact ⟨middle, before, after, first, others, rfl⟩
  | possessive =>
      have firm := ofFirm rfl
      intro cursor last small found
      unfold rounds at found
      simp only at found
      cases outcome : firmRounds round atLeast cursor with
      | failed marks =>
          rw [outcome] at found
          cases found
      | found behind =>
          rw [outcome] at found
          obtain ⟨stop, before, first, inside, reached⟩ :=
            follows_firmRounds firm atLeast cursor behind small outcome
          cases reached
          cases inside.eq_nil
          obtain ⟨⟨taken, few, others⟩, same⟩ :=
            follows_allRounds firm (freeRounds text atLeast atMost ⟨stop, cursor.marks⟩) none
              ⟨stop, cursor.marks⟩ small
          simp only [Marks.record_nil] at found
          generalize allRounds round (freeRounds text atLeast atMost ⟨stop, cursor.marks⟩) none
            ⟨stop, cursor.marks⟩ = behind at found others same
          have way : Ways.times (atLeast + taken) ways cursor.pos behind.pos [] := by
            rw [Ways.times_add]
            exact ⟨stop, [], [], first, others, rfl⟩
          refine ⟨behind.pos, [], Ways.between_of_free few way, Marks.between_nil low high, ?_⟩
          rw [Marks.record_nil, ← same]
          exact found

end Rounds

theorem Node.eq_char_of_test?
    {node : Node}
    {test : CharTest}
    (is : node.test? = some test) :
    node = .char test := by
  cases node <;> simp_all [Node.test?]

/-- A run that finds something has followed a way of its expression. -/
theorem Node.run_follows
    (text : Array Char)
    {node : Node}
    {low high : Nat}
    (fits : node.Fits low high)
    (looping : Bool)
    {next : Next}
    (steady : looping = false → Steady high next) :
    Follows looping low (node.ways text) low high next (node.run text looping next) := by
  induction node generalizing low high looping next with
  | empty => exact Follows.self looping low low high next
  | never => exact Follows.failed looping low low high _ next
  | char test =>
      intro cursor last _ found
      unfold Node.run at found
      split at found
      · rename_i inside
        split at found
        · rename_i passed
          exact ⟨cursor.pos + 1, [],
            ⟨⟨text[cursor.pos], Array.getElem?_eq_getElem inside, passed⟩, rfl, rfl⟩,
            Marks.between_nil low high, found⟩
        · cases found
      · cases found
  | anchor place =>
      intro cursor last _ found
      unfold Node.run at found
      split at found
      · rename_i holds
        exact ⟨cursor.pos, [], ⟨holds, rfl, rfl⟩, Marks.between_nil low high, found⟩
      · cases found
  | seq first second ofFirst ofSecond =>
      obtain ⟨middle, left, right⟩ := fits
      have ofRest := ofSecond right looping steady
      have restSteady : looping = false → Steady middle (second.run text looping next) :=
        fun calm =>
          (Node.run_keeps text right looping ((steady calm).mono right.le)).steady
      exact (ofFirst left looping restSteady).andThen ofRest left.le
        ⟨left.le, right.le, Nat.le_refl middle⟩
  | alt first second ofFirst ofSecond =>
      have firstSteady : looping = false → Steady low (first.run text looping next) :=
        fun calm =>
          (Node.run_keeps text fits.1 looping ((steady calm).mono fits.1.le)).steady
      have ofLast : Follows looping low (second.ways text) low high next
          (fun cursor => lastWay looping cursor (second.run text looping next)) :=
        fun cursor last small found =>
          ofSecond fits.2 looping steady cursor last small (found_of_lastWay found)
      exact Follows.orElse firstSteady (ofFirst fits.1 looping steady) ofLast
  | group index body ofBody =>
      obtain ⟨positive, start, stop, bare⟩ := fits
      intro cursor last small found
      unfold Node.run at found
      simp only at found
      have closingSteady : looping = false → Steady (startBorder index + 1) fun behind =>
          next { behind with marks := behind.marks.put (startBorder index + 1) behind.pos } :=
        fun calm behind marks failed =>
          (Marks.KeepsBelow.put behind.marks behind.pos (Nat.le_refl _)).trans
            ((steady calm _ marks failed).mono (Nat.le_of_succ_le stop))
      have stillSmall : looping = false →
          (cursor.marks.put (startBorder index) cursor.pos).size ≤ startBorder index + 1 := by
        intro calm
        have few := small calm
        rw [Marks.size_put]
        omega
      obtain ⟨end', passes, way, inside, reached⟩ :=
        ofBody (Node.fits_of_bare bare (Nat.le_refl (startBorder index + 1))) looping
          closingSteady { cursor with marks := cursor.marks.put (startBorder index) cursor.pos }
          last stillSmall found
      cases inside.eq_nil
      refine ⟨end', [⟨index, cursor.pos, end'⟩], ⟨[], way, rfl⟩, ?_, reached⟩
      intro pass member
      cases List.mem_singleton.mp member
      exact ⟨positive, start, stop⟩
  | again index folding =>
      intro cursor last _ found
      unfold Node.run at found
      split at found
      · split at found
        · exact ⟨_, [], ⟨Nat.le_add_right _ _, rfl⟩, Marks.between_nil low high, found⟩
        · cases found
      · cases found
  | look behind negated body ofBody =>
      intro cursor last small found
      unfold Node.run at found
      simp only at found
      split at found
      · cases outcome :
            body.run text looping .found { cursor with pos := cursor.pos - behind.getD 0 } with
        | found seen =>
            rw [outcome] at found
            cases negated with
            | true => cases found
            | false =>
                obtain ⟨stop, passes, way, inside, reached⟩ :=
                  ofBody fits looping (fun _ => steady_found high)
                    { cursor with pos := cursor.pos - behind.getD 0 } seen small outcome
                cases reached
                exact ⟨cursor.pos, passes, ⟨rfl, stop, way⟩, inside, found⟩
        | failed marks =>
            rw [outcome] at found
            cases negated with
            | false => cases found
            | true =>
                have inside : body.Fits low high := fits
                have kept := (Node.run_keeps text inside looping (steady_found low)).steady
                  { cursor with pos := cursor.pos - behind.getD 0 } marks outcome
                simp only at found
                rw [after_eq small fun _ => kept] at found
                exact ⟨cursor.pos, [], ⟨rfl, rfl⟩, Marks.between_nil low high, found⟩
      · split at found
        · rename_i isNegated
          cases isNegated
          exact ⟨cursor.pos, [], ⟨rfl, rfl⟩, Marks.between_nil low high, found⟩
        · cases found
  | atomic body ofBody =>
      intro cursor last small found
      unfold Node.run at found
      cases outcome : body.run text looping .found cursor with
      | failed marks =>
          rw [outcome] at found
          cases found
      | found behind =>
          rw [outcome] at found
          obtain ⟨stop, passes, way, inside, reached⟩ :=
            ofBody fits looping (fun _ => steady_found high) cursor behind small outcome
          cases reached
          exact ⟨stop, passes, way, inside, found⟩
  | repeated greed atLeast atMost body ofBody =>
      intro cursor last small found
      unfold Node.run at found
      split at found
      · rename_i test is
        cases Node.eq_char_of_test? is
        have le : low ≤ high := by
          cases greed with
          | greedy => exact fits
          | lazy => exact fits
          | possessive => exact fits.1
        exact follows_runOfTest steady le text test greed atLeast atMost cursor last small found
      · have le : low ≤ high := Node.Fits.le fits
        refine follows_rounds steady le text atLeast atMost greed ?_ ?_ cursor last small found
        · intro loose inner
          have inside : body.Fits low high := by
            cases greed with
            | greedy => exact fits
            | lazy => exact fits
            | possessive => exact absurd rfl loose
          have inLoop : (looping || greed != .possessive) = true := by
            simp [loose]
          simp only [inLoop]
          exact (ofBody inside true (by simp)).weaken true high
        · rintro rfl
          simp only [bne_self_eq_false, Bool.or_false]
          exact ofBody (Node.fits_of_bare fits.2 (Nat.le_refl low)) looping
            fun _ => steady_found low
  | branch index yes no ofYes ofNo =>
      intro cursor last small found
      unfold Node.run at found
      split at found
      · obtain ⟨stop, passes, way, rest⟩ := ofYes fits.1 looping steady cursor last small found
        exact ⟨stop, passes, Or.inl way, rest⟩
      · obtain ⟨stop, passes, way, rest⟩ := ofNo fits.2 looping steady cursor last small found
        exact ⟨stop, passes, Or.inr way, rest⟩

end NoticeScan.Regex

namespace NoticeScan

open NoticeScan.Regex

namespace Regex

/-! ## Matches -/

/-- A match tells of a way: it goes from the start to the stop, and each group has captured what
it captured when it was passed last. -/
def Found.Tells (found : Found) (node : Node) (text : Array Char) (passes : List Pass) : Prop :=
  node.ways text found.start found.stop passes ∧ (∀ pass ∈ passes, 0 < pass.group) ∧
    ∀ index, 0 < index →
      found.group? index =
        ((passes.filter fun pass => pass.group = index).getLast?).map
          fun pass => (pass.start, pass.stop)

section Matches

variable {regex : Regex} {text : Array Char} {low high : Nat}

theorem matchFrom_tells
    (fits : regex.node.Fits low high)
    {accepts : Nat → Bool}
    {pos : Nat}
    {found : Found}
    (is : regex.matchFrom text accepts pos = some found) :
    found.start = pos ∧ accepts found.stop = true ∧
      ∃ passes, found.Tells regex.node text passes := by
  unfold matchFrom at is
  simp only [Option.map_eq_some_iff] at is
  obtain ⟨behind, outcome, rfl⟩ := is
  have steady : Steady high fun behind : Cursor =>
      if accepts behind.pos then .found behind else .failed behind.marks := by
    intro cursor marks failed
    simp only at failed
    split at failed
    · cases failed
    · cases failed
      exact Marks.KeepsBelow.refl high cursor.marks
  have run : regex.node.run text false
      (fun behind => if accepts behind.pos then .found behind else .failed behind.marks)
      ⟨pos, #[]⟩ = .found behind := by
    revert outcome
    cases regex.node.run text false _ ⟨pos, #[]⟩ with
    | found last =>
        intro outcome
        cases outcome
        rfl
    | failed marks =>
        intro outcome
        cases outcome
  obtain ⟨stop, passes, way, inside, reached⟩ :=
    Node.run_follows text fits false (fun _ => steady) ⟨pos, #[]⟩ behind (by simp) run
  simp only at reached
  split at reached
  · rename_i accepted
    cases reached
    exact ⟨rfl, accepted, passes, way, fun pass member => (inside pass member).1,
      fun index positive => Marks.borders?_record inside positive⟩
  · cases reached

theorem matchAt_tells
    (fits : regex.node.Fits low high)
    {moving : Bool}
    {pos : Nat}
    {found : Found}
    (is : regex.matchAt text moving pos = some found) :
    found.start = pos ∧ ∃ passes, found.Tells regex.node text passes := by
  unfold matchAt at is
  split at is
  · obtain ⟨start, _, tells⟩ := matchFrom_tells fits is
    exact ⟨start, tells⟩
  · cases is

theorem searchFrom_tells
    (fits : regex.node.Fits low high)
    {more : Nat}
    {moving : Bool}
    {pos : Nat}
    {found : Found}
    (is : regex.searchFrom text more moving pos = some found) :
    pos ≤ found.start ∧ ∃ passes, found.Tells regex.node text passes := by
  induction more generalizing moving pos with
  | zero =>
      obtain ⟨start, tells⟩ := matchAt_tells fits is
      exact ⟨Nat.le_of_eq start.symm, tells⟩
  | succ more inductionHypothesis =>
      unfold searchFrom at is
      cases here : regex.matchAt text moving pos with
      | none =>
          rw [here] at is
          obtain ⟨start, tells⟩ := inductionHypothesis is
          exact ⟨Nat.le_of_succ_le start, tells⟩
      | some other =>
          rw [here] at is
          cases is
          obtain ⟨start, tells⟩ := matchAt_tells fits here
          exact ⟨Nat.le_of_eq start.symm, tells⟩

/-- What is found stands at the first place that has a match. -/
theorem searchFrom_leftmost
    (bare : regex.node.bare = true)
    {more pos : Nat}
    {found : Found}
    (is : regex.searchFrom text more false pos = some found) :
    regex.matchAt text false found.start = some found ∧
      ∀ place, pos ≤ place → place < found.start → regex.matchAt text false place = none := by
  have at_ {place : Nat} (here : regex.matchAt text false place = some found) :
      found.start = place :=
    (matchAt_tells (Node.fits_of_bare bare (Nat.le_refl 0)) here).1
  induction more generalizing pos with
  | zero =>
      have start := at_ is
      exact ⟨start ▸ is, fun place least less => absurd (start ▸ less) (Nat.not_lt.mpr least)⟩
  | succ more inductionHypothesis =>
      rw [searchFrom] at is
      cases here : regex.matchAt text false pos with
      | some other =>
          rw [here] at is
          cases is
          have start := at_ here
          exact ⟨start ▸ here, fun place least less => absurd (start ▸ less) (Nat.not_lt.mpr least)⟩
      | none =>
          rw [here] at is
          obtain ⟨matched, before⟩ := inductionHypothesis is
          refine ⟨matched, fun place least less => ?_⟩
          rcases Nat.eq_or_lt_of_le least with rfl | later
          · exact here
          · exact before place later less

theorem searchFrom_none
    {more pos : Nat}
    (is : regex.searchFrom text more false pos = none) :
    ∀ place, pos ≤ place → place ≤ pos + more → regex.matchAt text false place = none := by
  induction more generalizing pos with
  | zero =>
      intro place least most
      rw [Nat.le_antisymm most least]
      exact is
  | succ more inductionHypothesis =>
      rw [searchFrom] at is
      cases here : regex.matchAt text false pos with
      | some other =>
          rw [here] at is
          cases is
      | none =>
          rw [here] at is
          intro place least most
          rcases Nat.eq_or_lt_of_le least with rfl | later
          · exact here
          · exact inductionHypothesis is place later (by omega)

theorem findFrom_tells
    (fits : regex.node.Fits low high)
    {bound : Nat}
    {search : Search}
    {found : Found}
    (member : found ∈ regex.findFrom text bound search) :
    ∃ passes, found.Tells regex.node text passes := by
  induction bound generalizing search with
  | zero => cases member
  | succ bound inductionHypothesis =>
      unfold findFrom at member
      cases step : regex.next? text search with
      | none =>
          rw [step] at member
          cases member
      | some next =>
          obtain ⟨first, after⟩ := next
          rw [step] at member
          rcases List.mem_cons.mp member with rfl | later
          · unfold next? at step
            obtain ⟨other, is, same⟩ := Option.map_eq_some_iff.mp step
            cases same
            exact (searchFrom_tells fits is).2
          · exact inductionHypothesis later

theorem findAll_tells
    (fits : regex.node.Fits low high)
    {found : Found}
    (member : found ∈ regex.findAll text) :
    ∃ passes, found.Tells regex.node text passes :=
  findFrom_tells fits member

end Matches

end Regex

end NoticeScan
