import NoticeScan.Proofs.Exhaustive
import NoticeScan.Proofs.Parts

/-!
# The paths of an expression

Where an expression without groups leads from a position. Its paths are those of its ways that
the text around allows: what stands ahead or behind is looked at, and what an atomic group or a
possessive repeat cuts off is no path. So a run finds something just when one of the paths ends
where the continuation accepts, and this holds of every expression without groups.
-/

namespace NoticeScan.Regex

/-! ## Where nothing is marked -/

/-- A cursor at a position, with nothing marked. -/
def Cursor.fresh (pos : Nat) : Cursor :=
  ⟨pos, #[]⟩

/-- A continuation finds something at a position at which nothing is marked. -/
def Finds (next : Next) (pos : Nat) : Prop :=
  ∃ last, next (.fresh pos) = .found last

theorem Cursor.after_fresh
    (pos : Nat)
    (looping : Bool)
    (marks : Marks) :
    (Cursor.fresh pos).after looping marks = .fresh pos := by
  have none : marks.shrink (Cursor.fresh pos).marks.size = #[] := by
    apply Array.eq_empty_of_size_eq_zero
    rw [Array.size_shrink]
    exact Nat.min_eq_left (Nat.zero_le _)
  unfold Cursor.after
  rw [none]
  split <;> rfl

section Trying

variable (first second : Next) {pos : Nat} {looping : Bool}

theorem found_of_orElse
    {last : Cursor}
    (found : (match first (.fresh pos) with
      | .found behind => Outcome.found behind
      | .failed marks => second ((Cursor.fresh pos).after looping marks)) = .found last) :
    first (.fresh pos) = .found last ∨ second (.fresh pos) = .found last := by
  cases outcome : first (.fresh pos) with
  | found behind =>
      rw [outcome] at found
      exact Or.inl found
  | failed marks =>
      rw [outcome] at found
      dsimp only at found
      rw [Cursor.after_fresh] at found
      exact Or.inr found

theorem finds_orElse
    (finds : Finds first pos ∨ Finds second pos) :
    Finds (fun cursor =>
      match first cursor with
      | .found behind => .found behind
      | .failed marks => second (cursor.after looping marks)) pos := by
  unfold Finds
  dsimp only
  cases outcome : first (.fresh pos) with
  | found behind => exact ⟨behind, rfl⟩
  | failed marks =>
      dsimp only
      rw [Cursor.after_fresh]
      rcases finds with ⟨last, found⟩ | later
      · rw [outcome] at found
        cases found
      · exact later

theorem finds_lastWay
    {next : Next}
    (finds : Finds next pos) :
    Finds (fun cursor => lastWay looping cursor next) pos := by
  obtain ⟨last, found⟩ := finds
  refine ⟨last, ?_⟩
  unfold lastWay
  dsimp only
  rw [found]
  split <;> rfl

end Trying

/-! ## Paths -/

/-- The end of the first way of a run, and no other. -/
def Ways.firstOf (run : Next → Next) : Ways := fun start stop passes =>
  run .found (.fresh start) = .found (.fresh stop) ∧ passes = []

/-- The paths of an expression that captures nothing. A reference to a group fails then, and a
choice by a group goes on with its second branch. -/
def Node.paths (text : Array Char) : Node → Bool → Ways
  | .empty, _ => .stay
  | .never, _ => fun _ _ _ => False
  | .char test, _ => .oneOf text test
  | .anchor place, _ => fun start stop passes =>
      place.holds text start = true ∧ stop = start ∧ passes = []
  | .seq first second, looping => (first.paths text looping).andThen (second.paths text looping)
  | .alt first second, looping => (first.paths text looping).either (second.paths text looping)
  | .group _ body, looping => body.paths text looping
  | .again _ _, _ => fun _ _ _ => False
  | .look behind negated body, looping => fun start stop passes =>
      (behind.getD 0 ≤ start ∧
          (∃ seen inner, body.paths text looping (start - behind.getD 0) seen inner) ↔
        negated = false) ∧
      stop = start ∧ passes = []
  | .atomic body, looping => .firstOf ((Node.atomic body).run text looping)
  | .repeated greed low high body, looping => fun start stop passes =>
      if greed = .possessive then
        Ways.firstOf ((Node.repeated greed low high body).run text looping) start stop passes
      else
        (body.test?.isSome = true → high.all (low ≤ ·) = true) ∧
          Ways.between low high (body.paths text true) start stop passes
  | .branch _ _ no, looping => no.paths text looping

/-- Runs that lead just along some ways: they find what the continuation finds behind one of
them. -/
structure Traces (limit : Nat) (ways : Ways) (run : Next → Next) : Prop where
  forward : ways.Forward limit
  found : ∀ {next start last}, run next (.fresh start) = .found last →
    ∃ stop passes, ways start stop passes ∧ next (.fresh stop) = .found last
  finds : ∀ {next start stop passes}, ways start stop passes → Finds next stop →
    Finds (run next) start

namespace Traces

variable {limit : Nat} {first second ways : Ways} {run runFirst runSecond round : Next → Next}

theorem stay : Traces limit .stay fun next => next where
  forward := by
    rintro start stop passes ⟨rfl, -⟩
    exact ⟨Nat.le_refl _, fun less => absurd less (Nat.lt_irrefl _)⟩
  found := fun {_ start _} found => ⟨start, [], ⟨rfl, rfl⟩, found⟩
  finds := by
    rintro next start stop passes ⟨rfl, -⟩ finds
    exact finds

theorem fails
    (never : ∀ next start last, run next (.fresh start) ≠ .found last) :
    Traces limit (fun _ _ _ => False) run where
  forward := fun way => way.elim
  found := fun found => absurd found (never _ _ _)
  finds := fun way => way.elim

theorem andThen
    (one : Traces limit first runFirst)
    (other : Traces limit second runSecond) :
    Traces limit (first.andThen second) fun next => runFirst (runSecond next) where
  forward := by
    rintro start stop passes ⟨middle, before, after, early, late, -⟩
    have sooner := one.forward early
    have later := other.forward late
    omega
  found := by
    intro next start last found
    obtain ⟨middle, before, early, reached⟩ := one.found found
    obtain ⟨stop, after, late, done⟩ := other.found reached
    exact ⟨stop, before ++ after, ⟨middle, before, after, early, late, rfl⟩, done⟩
  finds := by
    rintro next start stop passes ⟨middle, before, after, early, late, -⟩ finds
    exact one.finds early (other.finds late finds)

theorem either
    (looping : Bool)
    (one : Traces limit first runFirst)
    (other : Traces limit second runSecond) :
    Traces limit (first.either second) fun next cursor =>
      match runFirst next cursor with
      | .found behind => .found behind
      | .failed marks =>
          lastWay looping (cursor.after looping marks) fun again => runSecond next again where
  forward := by
    rintro start stop passes (early | late)
    · exact one.forward early
    · exact other.forward late
  found := by
    intro next start last found
    have tried : runFirst next (.fresh start) = .found last ∨
        lastWay looping (.fresh start) (runSecond next) = .found last :=
      found_of_orElse (runFirst next) (fun cursor => lastWay looping cursor (runSecond next)) found
    rcases tried with early | late
    · obtain ⟨stop, passes, way, reached⟩ := one.found early
      exact ⟨stop, passes, Or.inl way, reached⟩
    · obtain ⟨stop, passes, way, reached⟩ := other.found (found_of_lastWay late)
      exact ⟨stop, passes, Or.inr way, reached⟩
  finds := by
    intro next start stop passes way finds
    refine finds_orElse (runFirst next) (fun cursor => lastWay looping cursor (runSecond next)) ?_
    rcases way with early | late
    · exact Or.inl (one.finds early finds)
    · exact Or.inr (finds_lastWay (other.finds late finds))

/-- A run that goes on only behind the first of its ways. -/
theorem firstOf
    (cuts : ∀ next cursor, run next cursor =
      match run .found cursor with
      | .found behind => next behind
      | .failed marks => .failed marks)
    (ends : ∀ {start last}, run .found (.fresh start) = .found last →
      ∃ stop, last = .fresh stop ∧ start ≤ stop ∧ (start < stop → stop ≤ limit)) :
    Traces limit (.firstOf run) run where
  forward := by
    rintro start stop passes ⟨found, -⟩
    obtain ⟨_, same, forward⟩ := ends found
    cases same
    exact forward
  found := by
    intro next start last found
    rw [cuts] at found
    cases outcome : run .found (.fresh start) with
    | failed marks =>
        rw [outcome] at found
        cases found
    | found behind =>
        rw [outcome] at found
        obtain ⟨stop, rfl, -⟩ := ends outcome
        exact ⟨stop, [], ⟨outcome, rfl⟩, found⟩
  finds := by
    rintro next start stop passes ⟨found, -⟩ finds
    unfold Finds
    rw [cuts, found]
    exact finds

/-- What is found behind a run is where one of its ways ends. -/
theorem ends
    (traces : Traces limit ways run)
    {start : Nat}
    {last : Cursor}
    (found : run .found (.fresh start) = .found last) :
    ∃ stop, last = .fresh stop ∧ start ≤ stop ∧ (start < stop → stop ≤ limit) := by
  obtain ⟨stop, passes, way, reached⟩ := traces.found found
  cases reached
  exact ⟨stop, rfl, traces.forward way⟩

end Traces

/-! ## Repeats of a test -/

section Tests

variable {next : Next} {start extra count : Nat} (looping : Bool)

end Tests

theorem Ways.Forward.between
    {ways : Ways}
    {limit : Nat}
    (forward : ways.Forward limit)
    (low : Nat)
    (high : Option Nat) :
    (Ways.between low high ways).Forward limit := by
  rintro start stop passes ⟨count, -, -, rounds⟩
  exact forward.times count rounds

section Rounds

variable {limit : Nat} {ways : Ways} {round : Next → Next} {next : Next} {start : Nat}

end Rounds

/-! ## Expressions -/

section Possessive

variable (text : Array Char) (looping : Bool) (low : Nat) (high : Option Nat)

end Possessive

section Nodes

variable (text : Array Char)

theorem Node.paths_repeated
    (looping : Bool)
    {greed : Greed}
    (gives : greed ≠ .possessive)
    (low : Nat)
    (high : Option Nat)
    (body : Node) :
    (Node.repeated greed low high body).paths text looping = fun start stop passes =>
      (body.test?.isSome = true → high.all (low ≤ ·) = true) ∧
        Ways.between low high (body.paths text true) start stop passes := by
  funext start stop passes
  rw [Node.paths]
  exact if_neg gives

end Nodes

theorem Node.reads_paths
    (text : Array Char)
    (looping : Bool) :
    Reads text fun node => node.paths text looping :=
  ⟨rfl, fun _ _ _ way => way.elim, fun _ => rfl, fun _ _ => rfl, fun _ _ => rfl⟩

end NoticeScan.Regex
