import NoticeScan.Proofs.Construction
import NoticeScan.Proofs.Contributions
import NoticeScan.Proofs.FileRuns

/-!
# Rules files that are refused

What can be wrong with a rules file, said without going through it: it cannot be read, it holds no
JSON or no object, its fields do not fit, or a pattern in it cannot be compiled. No scan is started
then. The program answers for all of these but for bytes that hold no JSON and for patterns that
fail in another way than by a fault in their texts, both of which break it down.
-/

namespace NoticeScan

open NoticeScan.Pattern

/-! ## Patterns of a rule set -/

namespace RuleSet

/-- A pattern of a list cannot be compiled. -/
def FailsWith (place : Section) (pattern : String) (failure : Failure) : Prop :=
  if place = .exclusions then compileExclusion {} pattern = .error failure
  else compile {} pattern = .error failure

/-- Some pattern is refused for a fault in it. -/
def Faulty (rules : RuleSet) : Prop :=
  ∃ place, ∃ pattern ∈ rules.get place, ∃ rejection, FailsWith place pattern (.rejected rejection)

/-- Some pattern fails in another way than by a fault in it. -/
def Breaks (rules : RuleSet) : Prop :=
  ∃ place, ∃ pattern ∈ rules.get place, ∃ error, FailsWith place pattern (.regex error)

theorem FailsWith.unique
    {place : Section}
    {pattern : String}
    {one other : Failure}
    (first : FailsWith place pattern one)
    (second : FailsWith place pattern other) :
    one = other := by
  unfold FailsWith at first second
  split at first
  · rename_i exclusion
    rw [if_pos exclusion, first] at second
    exact Except.error.inj second
  · rename_i widened
    rw [if_neg widened, first] at second
    exact Except.error.inj second

/-- The issues of a pattern of a list. -/
def patternIssues (place : Section) (pattern : String) : Except Regex.Error (List Issue) :=
  if place = .exclusions then exclusionIssues pattern else widenedIssues place pattern

/-- A check of a pattern tells how it is compiled. -/
theorem patternIssues_cases
    (place : Section)
    (pattern : String) :
    (patternIssues place pattern = .ok [] ∧ ∀ failure, ¬ FailsWith place pattern failure) ∨
      (∃ rejection found, FailsWith place pattern (.rejected rejection) ∧
        patternIssues place pattern = .ok found ∧ found ≠ []) ∨
      ∃ error, FailsWith place pattern (.regex error) ∧
        patternIssues place pattern = .error error := by
  unfold patternIssues FailsWith
  split
  · unfold exclusionIssues
    cases compiled : compileExclusion {} pattern with
    | ok made => exact Or.inl ⟨rfl, fun failure failed => by cases failed⟩
    | error failure =>
        cases failure with
        | rejected rejection => exact Or.inr (Or.inl ⟨_, _, rfl, rfl, List.cons_ne_nil _ _⟩)
        | regex error => exact Or.inr (Or.inr ⟨error, rfl, rfl⟩)
  · unfold widenedIssues
    cases sound : findings pattern.toList with
    | cons finding rest =>
        have refused : compile {} pattern = .error (.rejected ⟨pattern, .problem finding⟩) := by
          rw [compile, sound]
        exact Or.inr (Or.inl ⟨_, _, refused, rfl, List.cons_ne_nil _ _⟩)
    | nil =>
        dsimp only
        cases compiled : compile {} pattern with
        | ok made => exact Or.inl ⟨rfl, fun failure failed => by cases failed⟩
        | error failure =>
            cases failure with
            | rejected rejection => exact Or.inr (Or.inl ⟨_, _, rfl, rfl, List.cons_ne_nil _ _⟩)
            | regex error => exact Or.inr (Or.inr ⟨error, rfl, rfl⟩)

/-- What keeps a list from being gathered is some item of it. -/
theorem flatMapM_eq_error
    {ε ι α : Type}
    {f : ι → Except ε (List α)}
    {list : List ι}
    {error : ε}
    (failed : list.flatMapM f = .error error) :
    ∃ item ∈ list, f item = .error error := by
  induction list with
  | nil =>
      rw [List.flatMapM_nil] at failed
      cases failed
  | cons item rest inductionHypothesis =>
      rw [List.flatMapM_cons] at failed
      rcases bind_eq_error failed with first | ⟨part, later⟩
      · exact ⟨item, List.mem_cons_self, first⟩
      · rcases bind_eq_error later with others | ⟨values, last⟩
        · obtain ⟨culprit, member, same⟩ := inductionHypothesis others
          exact ⟨culprit, List.mem_cons_of_mem _ member, same⟩
        · cases last

/-- A check of a rule set tells how its patterns are compiled. -/
theorem issues_cases (rules : RuleSet) :
    (∃ error, rules.issues = .error error ∧ rules.Breaks) ∨
      ∃ found, rules.issues = .ok found ∧ ¬ rules.Breaks ∧ (found = [] ↔ ¬ rules.Faulty) := by
  cases checked : rules.issues with
  | error error =>
      refine Or.inl ⟨error, rfl, ?_⟩
      obtain ⟨place, -, failed⟩ := flatMapM_eq_error checked
      obtain ⟨pattern, member, failed⟩ := flatMapM_eq_error failed
      rcases patternIssues_cases place pattern with ⟨none, -⟩ | ⟨-, found, -, some, -⟩ |
        ⟨other, broken, -⟩
      · cases none.symm.trans failed
      · cases some.symm.trans failed
      · exact ⟨place, pattern, member, other, broken⟩
  | ok found =>
      refine Or.inr ⟨found, rfl, ?_, ?_⟩
      all_goals obtain ⟨part, each, rfl⟩ := flatMapM_eq_ok checked
      all_goals
        have single : ∀ place, ∃ single : String → List Issue,
            (∀ pattern ∈ rules.get place, patternIssues place pattern = .ok (single pattern)) ∧
              part place = (rules.get place).flatMap single :=
          fun place => flatMapM_eq_ok (each place (Section.mem_all place))
      · rintro ⟨place, pattern, member, error, broken⟩
        obtain ⟨single, judged, -⟩ := single place
        rcases patternIssues_cases place pattern with ⟨-, fine⟩ | ⟨rejection, _, refused, -⟩ |
          ⟨_, -, failed⟩
        · exact fine _ broken
        · cases broken.unique refused
        · cases (judged pattern member).symm.trans failed
      · rw [List.flatMap_eq_nil_iff]
        constructor
        · rintro none ⟨place, pattern, member, rejection, refused⟩
          obtain ⟨single, judged, whole⟩ := single place
          have empty : single pattern = [] :=
            List.flatMap_eq_nil_iff.mp (whole.symm.trans (none place (Section.mem_all place)))
              pattern member
          rcases patternIssues_cases place pattern with ⟨-, fine⟩ | ⟨_, found, -, some, notNil⟩ |
            ⟨_, broken, -⟩
          · exact fine _ refused
          · rw [judged pattern member, empty] at some
            exact notNil (Except.ok.inj some).symm
          · cases broken.unique refused
        · intro sound place _
          obtain ⟨single, judged, whole⟩ := single place
          rw [whole, List.flatMap_eq_nil_iff]
          intro pattern member
          rcases patternIssues_cases place pattern with ⟨none, -⟩ | ⟨rejection, _, refused, -⟩ |
            ⟨_, -, failed⟩
          · exact Except.ok.inj ((judged pattern member).symm.trans none)
          · exact absurd ⟨place, pattern, member, rejection, refused⟩ sound
          · cases (judged pattern member).symm.trans failed

end RuleSet
/-! ## Fields -/

namespace Config

/-- Something is wrong with the fields of a rules file. -/
inductive Misfit (fields : List (String × Json)) : Prop where
  | unknownKey {key : String} {value : Json} (member : (key, value) ∈ fields)
      (unknown : key ∉ knownKeys)
  | notStrings {field : StepField} {value : Json} (listed : field ∈ stepFields)
      (there : fields.lookup field.key = some value) (other : value.asStrings? = none)
  | unknownName {field : StepField} {strings : List String} {name : String}
      (listed : field ∈ nameFields) (there : field.strings? fields = some strings)
      (member : name ∈ strings) (unknown : name ∉ Catalogue.names)
  | notTruthValue {value : Json} (there : fields.lookup permissionKey = some value)
      (other : value.asBool? = none)
  | pattern (faulty : (rulesOf fields).Faulty)

theorem unknownName?_eq (step : RuleSet.Step) :
    unknownName? step = step.complaint? := by
  rw [unknownName?, RuleSet.step_eq]
  cases step.complaint? <;> rfl

theorem unknownName?_nameField
    {field : StepField}
    (listed : field ∈ nameFields)
    (name : String) :
    unknownName? (field.step name) =
      if name ∈ Catalogue.names then none else some ⟨name, Catalogue.suggestions name⟩ := by
  rw [unknownName?_eq]
  simp only [nameFields, List.mem_cons, List.not_mem_nil, or_false] at listed
  rcases listed with rfl | rfl | rfl | rfl <;> rfl

theorem unknownName?_patternField
    {field : StepField}
    (listed : field ∈ patternFields)
    (text : String) :
    unknownName? (field.step text) = none := by
  obtain ⟨place, -, rfl⟩ := List.mem_map.mp listed
  rfl

/-- The value in the bytes of a rules file, if they hold JSON. -/
def value? (bytes : List UInt8) : Option Json :=
  (Text.Utf8.decode? bytes).bind (Json.parseWith? Json.narrowInteger)

end Config

namespace CommandLine

open NoticeScan.Files

/-! ## Files -/

/-- What a rules file is good for. -/
inductive Condition where
  /-- It holds a configuration. -/
  | sound
  /-- It has faults that the program answers for. -/
  | refused
  /-- It holds no JSON. -/
  | notJson
  /-- It has a pattern that breaks the check. -/
  | breaking
  deriving Repr, DecidableEq

/-- What the content of a rules file is good for. -/
inductive Judged : Except Files.Error (List UInt8) → Condition → Prop where
  | unreadable (error : Files.Error) : Judged (.error error) .refused
  | notJson {bytes : List UInt8} (nothing : Config.value? bytes = none) :
      Judged (.ok bytes) .notJson
  | notObject {bytes : List UInt8} {value : Json} (holds : Config.value? bytes = some value)
      (other : ∀ fields, value ≠ .object fields) : Judged (.ok bytes) .refused
  | breaking {bytes : List UInt8} {fields : List (String × Json)}
      (holds : Config.value? bytes = some (.object fields))
      (breaks : (Config.rulesOf fields).Breaks) : Judged (.ok bytes) .breaking
  | misfit {bytes : List UInt8} {fields : List (String × Json)}
      (holds : Config.value? bytes = some (.object fields))
      (whole : ¬ (Config.rulesOf fields).Breaks) (misfit : Config.Misfit fields) :
      Judged (.ok bytes) .refused
  | sound {bytes : List UInt8} {fields : List (String × Json)}
      (holds : Config.value? bytes = some (.object fields))
      (whole : ¬ (Config.rulesOf fields).Breaks) (fits : ¬ Config.Misfit fields) :
      Judged (.ok bytes) .sound

section Content

variable {content : Except Files.Error (List UInt8)} {one other : Condition}

theorem Judged.unique
    (first : Judged content one)
    (second : Judged content other) :
    one = other := by
  cases first
  all_goals cases second
  all_goals grind

/-- What reading a rules file comes to. -/
def Condition.Yields (condition : Condition) (result : Except (Ending × Option String) Config) :
    Prop :=
  match condition with
  | .sound => ∃ config, result = .ok config ∧ config.rules.issues = .ok []
  | .refused => ∃ text, result = .error (.exit 2, some text)
  | .notJson => result = .error (.breakdown .notJson, none)
  | .breaking => ∃ error, result = .error (.breakdown (.regex error), none)

end Content

/-! ## Runs -/

end CommandLine

end NoticeScan
