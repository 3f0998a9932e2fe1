import NoticeScan.Proofs.Marks

namespace NoticeScan.Regex

/-! ## Expressions whose marks can be told from their passes -/

/-- Whether no group stands in an expression. -/
def Node.bare : Node → Bool
  | .empty | .never | .char _ | .anchor _ | .again _ _ => true
  | .seq first second | .alt first second => first.bare && second.bare
  | .group _ _ => false
  | .look _ _ body | .atomic body | .repeated _ _ _ body => body.bare
  | .branch _ yes no => yes.bare && no.bare

/-- Whether the borders of the groups of an expression lie in a range, those of a sequence from
left to right, with no group in another one or in a possessive repeat. -/
def Node.Fits : Node → (low high : Nat) → Prop
  | .empty, low, high | .never, low, high | .char _, low, high | .anchor _, low, high
  | .again _ _, low, high => low ≤ high
  | .seq first second, low, high => ∃ middle, first.Fits low middle ∧ second.Fits middle high
  | .alt first second, low, high => first.Fits low high ∧ second.Fits low high
  | .group index body, low, high =>
      0 < index ∧ low ≤ startBorder index ∧ startBorder index + 2 ≤ high ∧ body.bare = true
  | .look _ _ body, low, high | .atomic body, low, high => body.Fits low high
  | .repeated .possessive _ _ body, low, high => low ≤ high ∧ body.bare = true
  | .repeated .greedy _ _ body, low, high | .repeated .lazy _ _ body, low, high =>
      body.Fits low high
  | .branch _ yes no, low, high => yes.Fits low high ∧ no.Fits low high

theorem Node.Fits.le
    {node : Node}
    {low high : Nat}
    (fits : node.Fits low high) :
    low ≤ high := by
  induction node generalizing low high with
  | empty | never | char | anchor | again => exact fits
  | seq first second ofFirst ofSecond =>
      obtain ⟨middle, left, right⟩ := fits
      exact Nat.le_trans (ofFirst left) (ofSecond right)
  | alt first second ofFirst _ => exact ofFirst fits.1
  | group index body _ =>
      have borders := fits.2
      omega
  | look behind negated body ofBody => exact ofBody fits
  | atomic body ofBody => exact ofBody fits
  | repeated greed atLeast atMost body ofBody =>
      cases greed with
      | greedy => exact ofBody fits
      | lazy => exact ofBody fits
      | possessive => exact fits.1
  | branch index yes no ofYes _ => exact ofYes fits.1

theorem Node.fits_of_bare
    {node : Node}
    {low high : Nat}
    (bare : node.bare = true)
    (le : low ≤ high) :
    node.Fits low high := by
  induction node generalizing low high with
  | empty | never | char | anchor | again => exact le
  | seq first second ofFirst ofSecond =>
      obtain ⟨left, right⟩ := Bool.and_eq_true_iff.mp bare
      exact ⟨low, ofFirst left (Nat.le_refl _), ofSecond right le⟩
  | alt first second ofFirst ofSecond =>
      obtain ⟨left, right⟩ := Bool.and_eq_true_iff.mp bare
      exact ⟨ofFirst left le, ofSecond right le⟩
  | group index body _ => cases bare
  | look behind negated body ofBody => exact ofBody bare le
  | atomic body ofBody => exact ofBody bare le
  | repeated greed atLeast atMost body ofBody =>
      cases greed with
      | greedy => exact ofBody bare le
      | lazy => exact ofBody bare le
      | possessive => exact ⟨le, bare⟩
  | branch index yes no ofYes ofNo =>
      obtain ⟨left, right⟩ := Bool.and_eq_true_iff.mp bare
      exact ⟨ofYes left le, ofNo right le⟩

theorem Node.Fits.mono
    {node : Node}
    {low high lower higher : Nat}
    (fits : node.Fits low high)
    (below : lower ≤ low)
    (above : high ≤ higher) :
    node.Fits lower higher := by
  induction node generalizing low high lower higher with
  | empty | never | char | anchor | again => exact Nat.le_trans below (Nat.le_trans fits above)
  | seq first second ofFirst ofSecond =>
      obtain ⟨middle, left, right⟩ := fits
      exact ⟨middle, ofFirst left below (Nat.le_refl _), ofSecond right (Nat.le_refl _) above⟩
  | alt first second ofFirst ofSecond =>
      exact ⟨ofFirst fits.1 below above, ofSecond fits.2 below above⟩
  | group index body _ =>
      obtain ⟨positive, start, stop, bare⟩ := fits
      exact ⟨positive, Nat.le_trans below start, Nat.le_trans stop above, bare⟩
  | look behind negated body ofBody => exact ofBody fits below above
  | atomic body ofBody => exact ofBody fits below above
  | repeated greed atLeast atMost body ofBody =>
      cases greed with
      | greedy => exact ofBody fits below above
      | lazy => exact ofBody fits below above
      | possessive => exact ⟨Nat.le_trans below (Nat.le_trans fits.1 above), fits.2⟩
  | branch index yes no ofYes ofNo =>
      exact ⟨ofYes fits.1 below above, ofNo fits.2 below above⟩

/-- The least border up to which the groups of an expression reach, if they fit from a border
on. -/
def Node.reach? (low : Nat) : Node → Option Nat
  | .empty | .never | .char _ | .anchor _ | .again _ _ => some low
  | .seq first second => (first.reach? low).bind fun middle => second.reach? middle
  | .alt first second | .branch _ first second =>
      (first.reach? low).bind fun one => (second.reach? low).map fun other => max one other
  | .group index body =>
      if 0 < index ∧ low ≤ startBorder index ∧ body.bare = true then
        some (startBorder index + 2)
      else
        none
  | .look _ _ body | .atomic body | .repeated .greedy _ _ body | .repeated .lazy _ _ body =>
      body.reach? low
  | .repeated .possessive _ _ body => if body.bare = true then some low else none

theorem Node.fits_of_reach?
    {node : Node}
    {low high : Nat}
    (reaches : node.reach? low = some high) :
    node.Fits low high := by
  induction node generalizing low high with
  | empty | never | char | anchor | again =>
      cases reaches
      exact Nat.le_refl _
  | seq first second ofFirst ofSecond =>
      obtain ⟨middle, one, other⟩ := Option.bind_eq_some_iff.mp reaches
      exact ⟨middle, ofFirst one, ofSecond other⟩
  | alt first second ofFirst ofSecond | branch index first second ofFirst ofSecond =>
      obtain ⟨one, left, reaches⟩ := Option.bind_eq_some_iff.mp reaches
      obtain ⟨other, right, rfl⟩ := Option.map_eq_some_iff.mp reaches
      exact ⟨(ofFirst left).mono (Nat.le_refl _) (Nat.le_max_left _ _),
        (ofSecond right).mono (Nat.le_refl _) (Nat.le_max_right _ _)⟩
  | group index body _ =>
      unfold reach? at reaches
      split at reaches
      · rename_i fitting
        cases reaches
        exact ⟨fitting.1, fitting.2.1, Nat.le_refl _, fitting.2.2⟩
      · cases reaches
  | look behind negated body ofBody => exact ofBody reaches
  | atomic body ofBody => exact ofBody reaches
  | repeated greed atLeast atMost body ofBody =>
      cases greed with
      | greedy => exact ofBody reaches
      | lazy => exact ofBody reaches
      | possessive =>
          unfold reach? at reaches
          split at reaches
          · rename_i bare
            cases reaches
            exact ⟨Nat.le_refl _, bare⟩
          · cases reaches

/-! ## What a run keeps -/

/-- A continuation that keeps the marks before a border when it fails. -/
def Steady (bound : Nat) (next : Next) : Prop :=
  ∀ cursor marks, next cursor = .failed marks → Marks.KeepsBelow bound cursor.marks marks

theorem Steady.mono
    {smaller bound : Nat}
    {next : Next}
    (steady : Steady bound next)
    (le : smaller ≤ bound) :
    Steady smaller next :=
  fun cursor marks failed => (steady cursor marks failed).mono le

theorem steady_found
    (bound : Nat) :
    Steady bound .found := by
  intro cursor marks failed
  cases failed

/-- What comes of running something with a continuation: marks that were there are kept before a
border, whether the continuation is reached in the end or everything fails. -/
def Outcome.Keeps (bound : Nat) (marks : Marks) (next : Next) : Outcome → Prop
  | .failed left => Marks.KeepsBelow bound marks left
  | .found last => ∃ behind, Marks.KeepsBelow bound marks behind.marks ∧ next behind = .found last

namespace Outcome.Keeps

theorem of_next
    {bound : Nat}
    {next : Next}
    (steady : Steady bound next)
    {marks : Marks}
    {cursor : Cursor}
    (kept : Marks.KeepsBelow bound marks cursor.marks) :
    (next cursor).Keeps bound marks next := by
  cases outcome : next cursor with
  | found last => exact ⟨cursor, kept, outcome⟩
  | failed left => exact kept.trans (steady cursor left outcome)

theorem of_kept
    {bound : Nat}
    {first second : Marks}
    {next : Next}
    {outcome : Outcome}
    (kept : Marks.KeepsBelow bound first second)
    (keeps : outcome.Keeps bound second next) :
    outcome.Keeps bound first next := by
  cases outcome with
  | found last =>
      obtain ⟨behind, later, reached⟩ := keeps
      exact ⟨behind, kept.trans later, reached⟩
  | failed left => exact kept.trans keeps

/-- A continuation may be run through another one. -/
theorem through
    {bound : Nat}
    {marks : Marks}
    {inner next : Next}
    {outcome : Outcome}
    (keeps : outcome.Keeps bound marks inner)
    (ofInner : ∀ behind last, inner behind = .found last →
      (inner behind).Keeps bound behind.marks next) :
    outcome.Keeps bound marks next := by
  cases outcome with
  | failed left => exact keeps
  | found last =>
      obtain ⟨behind, kept, reached⟩ := keeps
      have later := ofInner behind last reached
      rw [reached] at later
      exact of_kept kept later

end Outcome.Keeps

/-- A continuation keeps marks with respect to another one that it runs. -/
def KeepsTo (bound : Nat) (next : Next) (inner : Next) : Prop :=
  ∀ cursor, (inner cursor).Keeps bound cursor.marks next

theorem KeepsTo.steady
    {bound : Nat}
    {next inner : Next}
    (keeps : KeepsTo bound next inner) :
    Steady bound inner := by
  intro cursor marks failed
  have kept := keeps cursor
  rw [failed] at kept
  exact kept

theorem KeepsTo.trans
    {bound : Nat}
    {next middle inner : Next}
    (outer : KeepsTo bound next middle)
    (deeper : KeepsTo bound middle inner) :
    KeepsTo bound next inner :=
  fun cursor => (deeper cursor).through fun behind _ _ => outer behind

theorem keepsTo_self
    {bound : Nat}
    {next : Next}
    (steady : Steady bound next) :
    KeepsTo bound next next :=
  fun cursor => .of_next steady (.refl bound cursor.marks)

theorem keepsTo_move
    {bound : Nat}
    {next : Next}
    (steady : Steady bound next)
    (move : Cursor → Nat) :
    KeepsTo bound next (fun cursor => next { cursor with pos := move cursor }) :=
  fun cursor => .of_next steady (.refl bound cursor.marks)

theorem keepsTo_failed
    (bound : Nat)
    (next : Next) :
    KeepsTo bound next (fun cursor => .failed cursor.marks) :=
  fun cursor => Marks.KeepsBelow.refl bound cursor.marks

theorem Marks.KeepsBelow.after
    {bound : Nat}
    {cursor : Cursor}
    {marks : Marks}
    (looping : Bool)
    (kept : Marks.KeepsBelow bound cursor.marks marks) :
    Marks.KeepsBelow bound cursor.marks (cursor.after looping marks).marks := by
  cases looping with
  | true => exact .refl bound cursor.marks
  | false =>
      intro border below known
      have same := kept border below known
      have long : border < marks.size := by
        by_contra short
        rw [Array.getElem?_eq_none (Nat.le_of_not_lt short),
          Array.getElem?_eq_getElem known] at same
        simp at same
      have inside : border < (marks.shrink cursor.marks.size).size := by
        rw [Array.size_shrink]
        omega
      change (marks.shrink cursor.marks.size)[border]? = cursor.marks[border]?
      rw [← same, Array.getElem?_eq_getElem inside, Array.getElem?_eq_getElem long,
        Array.getElem_shrink]

/-- One thing is tried, and another one when it fails. -/
theorem KeepsTo.orElse
    {bound : Nat}
    {next first second : Next}
    (looping : Bool)
    (one : KeepsTo bound next first)
    (other : KeepsTo bound next second) :
    KeepsTo bound next fun cursor =>
      match first cursor with
      | .found behind => .found behind
      | .failed marks => second (cursor.after looping marks) := by
  intro cursor
  have kept := one cursor
  cases outcome : first cursor with
  | found behind =>
      rw [outcome] at kept
      simp only [outcome]
      exact kept
  | failed marks =>
      rw [outcome] at kept
      simp only [outcome]
      exact .of_kept (Marks.KeepsBelow.after looping kept) (other _)

theorem KeepsTo.lastWay
    {bound : Nat}
    {next inner : Next}
    (looping : Bool)
    (keeps : KeepsTo bound next inner) :
    KeepsTo bound next (fun cursor => lastWay looping cursor inner) := by
  intro cursor
  have kept := keeps cursor
  unfold Regex.lastWay
  cases looping with
  | false => exact kept
  | true =>
      cases outcome : inner cursor with
      | found behind =>
          rw [outcome] at kept
          simp only [outcome, if_true]
          exact kept
      | failed marks =>
          simp only [outcome, if_true]
          exact Marks.KeepsBelow.refl bound cursor.marks

theorem keepsTo_fewerAndFewer
    {bound : Nat}
    {next : Next}
    (steady : Steady bound next)
    (looping : Bool)
    (start extra : Nat) :
    KeepsTo bound next (fewerAndFewer looping next start extra) := by
  induction extra with
  | zero => exact (keepsTo_move steady fun _ => start).lastWay looping
  | succ extra inductionHypothesis =>
      exact (keepsTo_move steady fun _ => start + (extra + 1)).orElse looping inductionHypothesis

theorem keepsTo_moreAndMore
    {bound : Nat}
    {next : Next}
    (steady : Steady bound next)
    (looping : Bool)
    (start extra : Nat) :
    KeepsTo bound next (moreAndMore looping next start extra) := by
  induction extra generalizing start with
  | zero => exact (keepsTo_move steady fun _ => start).lastWay looping
  | succ extra inductionHypothesis =>
      exact (keepsTo_move steady fun _ => start).orElse looping (inductionHypothesis (start + 1))

theorem keepsTo_runOfTest
    {bound : Nat}
    {next : Next}
    (steady : Steady bound next)
    (text : Array Char)
    (test : CharTest)
    (looping : Bool)
    (greed : Greed)
    (low : Nat)
    (high : Option Nat) :
    KeepsTo bound next (runOfTest text test looping greed low high next) := by
  intro cursor
  unfold runOfTest
  simp only
  split
  · exact keepsTo_failed bound next cursor
  · cases greed with
    | greedy => exact keepsTo_fewerAndFewer steady looping _ _ cursor
    | lazy => exact keepsTo_moreAndMore steady looping _ _ cursor
    | possessive => exact .of_next steady (.refl bound cursor.marks)

/-! ### Rounds -/

section Rounds

variable {bound : Nat} {next : Next} {round : Next → Next}

theorem keepsTo_requiredRounds
    (steady : Steady bound next)
    (ofRound : ∀ inner, Steady bound inner → KeepsTo bound inner (round inner))
    (count : Nat) :
    KeepsTo bound next (requiredRounds round next count) := by
  induction count with
  | zero => exact keepsTo_self steady
  | succ count inductionHypothesis =>
      exact inductionHypothesis.trans (ofRound _ inductionHypothesis.steady)

theorem keepsTo_greedyRounds
    (steady : Steady bound next)
    (ofRound : ∀ inner, Steady bound inner → KeepsTo bound inner (round inner))
    (count : Nat)
    (last : Option Nat) :
    KeepsTo bound next (greedyRounds round next count last) := by
  induction count generalizing last with
  | zero => exact keepsTo_self steady
  | succ count inductionHypothesis =>
      intro cursor
      unfold greedyRounds
      split
      · exact keepsTo_self steady cursor
      · have deeper := inductionHypothesis (some cursor.pos)
        have further := deeper.trans (ofRound _ deeper.steady)
        exact further.orElse true (keepsTo_self steady) cursor

theorem keepsTo_lazyRounds
    (steady : Steady bound next)
    (ofRound : ∀ inner, Steady bound inner → KeepsTo bound inner (round inner))
    (looping : Bool)
    (count : Nat)
    (last : Option Nat) :
    KeepsTo bound next (lazyRounds looping round next count last) := by
  induction count generalizing last with
  | zero => exact (keepsTo_self steady).lastWay looping
  | succ count inductionHypothesis =>
      intro cursor
      unfold lazyRounds
      have deeper := inductionHypothesis (some cursor.pos)
      have further := deeper.trans (ofRound _ deeper.steady)
      have kept := keepsTo_self steady cursor
      cases outcome : next cursor with
      | found behind =>
          rw [outcome] at kept
          exact kept
      | failed marks =>
          rw [outcome] at kept
          have again := Marks.KeepsBelow.after looping kept
          simp only
          split
          · exact again
          · exact .of_kept again (further _)

theorem keeps_allRounds
    (ofRound : ∀ inner, Steady bound inner → KeepsTo bound inner (round inner))
    (count : Nat)
    (last : Option Nat)
    (cursor : Cursor) :
    Marks.KeepsBelow bound cursor.marks (allRounds round count last cursor).marks := by
  induction count generalizing last cursor with
  | zero => exact .refl bound cursor.marks
  | succ count inductionHypothesis =>
      unfold allRounds
      split
      · exact .refl bound cursor.marks
      · have kept := ofRound .found (steady_found bound) cursor
        cases outcome : round .found cursor with
        | failed marks => exact .refl bound cursor.marks
        | found behind =>
            rw [outcome] at kept
            obtain ⟨seen, before, reached⟩ := kept
            cases reached
            exact before.trans (inductionHypothesis _ _)

theorem keepsTo_firmRounds
    (ofRound : ∀ inner, Steady bound inner → KeepsTo bound inner (round inner))
    (count : Nat) :
    KeepsTo bound .found (firmRounds round count) := by
  induction count with
  | zero => exact keepsTo_self (steady_found bound)
  | succ count inductionHypothesis =>
      intro cursor
      unfold firmRounds
      have kept := ofRound .found (steady_found bound) cursor
      cases outcome : round .found cursor with
      | failed marks =>
          rw [outcome] at kept
          exact kept
      | found behind =>
          rw [outcome] at kept
          obtain ⟨seen, before, reached⟩ := kept
          cases reached
          exact .of_kept before (inductionHypothesis _)

theorem keepsTo_rounds
    (steady : Steady bound next)
    (ofRound : ∀ inner, Steady bound inner → KeepsTo bound inner (round inner))
    (text : Array Char)
    (looping : Bool)
    (greed : Greed)
    (low : Nat)
    (high : Option Nat) :
    KeepsTo bound next (rounds text round looping greed low high next) := by
  intro cursor
  unfold rounds
  cases greed with
  | greedy =>
      have free : KeepsTo bound next fun behind =>
          greedyRounds round next (freeRounds text low high behind) none behind :=
        fun behind => keepsTo_greedyRounds steady ofRound _ none behind
      exact free.trans (keepsTo_requiredRounds free.steady ofRound low) cursor
  | lazy =>
      have free : KeepsTo bound next fun behind =>
          lazyRounds looping round next (freeRounds text low high behind) none behind :=
        fun behind => keepsTo_lazyRounds steady ofRound looping _ none behind
      exact free.trans (keepsTo_requiredRounds free.steady ofRound low) cursor
  | possessive =>
      have kept := keepsTo_firmRounds ofRound low cursor
      simp only
      cases outcome : firmRounds round low cursor with
      | failed marks =>
          rw [outcome] at kept
          exact kept
      | found behind =>
          rw [outcome] at kept
          obtain ⟨seen, before, reached⟩ := kept
          cases reached
          exact .of_next steady (before.trans (keeps_allRounds ofRound _ none _))

end Rounds

/-- A run keeps the marks before its groups. -/
theorem Node.run_keeps
    (text : Array Char)
    {node : Node}
    {low high : Nat}
    (fits : node.Fits low high)
    (looping : Bool)
    {next : Next}
    (steady : Steady low next) :
    KeepsTo low next (node.run text looping next) := by
  induction node generalizing low high looping next with
  | empty => exact keepsTo_self steady
  | never => exact keepsTo_failed low next
  | char test =>
      intro cursor
      unfold Node.run
      split
      · split
        · exact keepsTo_move steady (fun cursor => cursor.pos + 1) cursor
        · exact keepsTo_failed low next cursor
      · exact keepsTo_failed low next cursor
  | anchor place =>
      intro cursor
      unfold Node.run
      split
      · exact keepsTo_self steady cursor
      · exact keepsTo_failed low next cursor
  | seq first second ofFirst ofSecond =>
      obtain ⟨middle, left, right⟩ := fits
      have second' := ofSecond (right.mono left.le (Nat.le_refl _)) looping steady
      exact second'.trans (ofFirst left looping second'.steady)
  | alt first second ofFirst ofSecond =>
      exact (ofFirst fits.1 looping steady).orElse looping
        ((ofSecond fits.2 looping steady).lastWay looping)
  | group index body ofBody =>
      obtain ⟨_, start, _, bare⟩ := fits
      have closing : KeepsTo low next fun behind =>
          next { behind with marks := behind.marks.put (startBorder index + 1) behind.pos } :=
        fun behind =>
          .of_next steady (.put behind.marks behind.pos (Nat.le_succ_of_le start))
      have inside := ofBody (Node.fits_of_bare bare (Nat.le_refl low)) looping closing.steady
      intro cursor
      exact .of_kept (.put cursor.marks cursor.pos start) (closing.trans inside _)
  | again index folding =>
      intro cursor
      unfold Node.run
      split
      · split
        · exact keepsTo_move steady (fun _ => _) cursor
        · exact keepsTo_failed low next cursor
      · exact keepsTo_failed low next cursor
  | look behind negated body ofBody =>
      intro cursor
      unfold Node.run
      simp only
      split
      · have kept := ofBody fits looping (steady_found low)
          { cursor with pos := cursor.pos - behind.getD 0 }
        cases outcome :
            body.run text looping .found { cursor with pos := cursor.pos - behind.getD 0 } with
        | found seen =>
            rw [outcome] at kept
            obtain ⟨_, before, reached⟩ := kept
            cases reached
            cases negated with
            | false => exact .of_next steady before
            | true => exact before
        | failed marks =>
            rw [outcome] at kept
            cases negated with
            | false => exact kept
            | true => exact .of_next steady (Marks.KeepsBelow.after looping kept)
      · split
        · exact keepsTo_self steady cursor
        · exact keepsTo_failed low next cursor
  | atomic body ofBody =>
      intro cursor
      unfold Node.run
      have kept := ofBody fits looping (steady_found low) cursor
      cases outcome : body.run text looping .found cursor with
      | failed marks =>
          rw [outcome] at kept
          exact kept
      | found behind =>
          rw [outcome] at kept
          obtain ⟨_, before, reached⟩ := kept
          cases reached
          exact .of_next steady before
  | repeated greed atLeast atMost body ofBody =>
      have inside : body.Fits low high := by
        cases greed with
        | greedy => exact fits
        | lazy => exact fits
        | possessive => exact Node.fits_of_bare fits.2 fits.1
      intro cursor
      unfold Node.run
      split
      · exact keepsTo_runOfTest steady text _ looping greed atLeast atMost cursor
      · exact keepsTo_rounds steady (fun inner steadyInner => ofBody inside _ steadyInner) text
          looping greed atLeast atMost cursor
  | branch index yes no ofYes ofNo =>
      intro cursor
      unfold Node.run
      split
      · exact ofYes fits.1 looping steady cursor
      · exact ofNo fits.2 looping steady cursor

end NoticeScan.Regex
