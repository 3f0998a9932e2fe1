import NoticeScan.Proofs.Built
import NoticeScan.Proofs.Caseless
import NoticeScan.RuleSet.Validation

/-!
# What a check tells about building

A check looks at each pattern alone, and a scanner is built by compiling one pattern after the
other. Both come to the same: what the check complains of is what building stops at.
-/

namespace NoticeScan

open NoticeScan.RuleSet NoticeScan.Scanner

/-- Issues tell how something comes out: with any, it fails because one of the patterns is refused,
and without, it is fine. -/
def Settled {α : Type} (issues : List Issue) (fine : Except BuildError α → Prop)
    (result : Except BuildError α) : Prop :=
  (∃ issue ∈ issues, result = .error (.pattern (.rejected issue.rejection))) ∨
    (issues = [] ∧ fine result)

/-- There is a value. -/
def IsMade {α : Type} (result : Except BuildError α) : Prop :=
  ∃ value, result = .ok value

namespace Settled

variable {α β : Type} {found more : List Issue} {one : Except BuildError α}
  {next : α → Except BuildError β} {fine : Except BuildError β → Prop}

/-- What comes first and what comes next are settled by the issues of both. -/
theorem bind
    (first : Settled found IsMade one)
    (rest : ∀ value, one = .ok value → Settled more fine (next value)) :
    Settled (found ++ more) fine (one >>= next) := by
  rcases first with ⟨issue, member, failed⟩ | ⟨none, value, made⟩
  · refine Or.inl ⟨issue, List.mem_append_left more member, ?_⟩
    rw [failed]
    rfl
  · have same : (one >>= next) = next value := by
      rw [made]
      rfl
    rw [same, none, List.nil_append]
    exact rest value made

theorem made
    (value : α) :
    Settled [] IsMade (.ok value : Except BuildError α) :=
  Or.inr ⟨rfl, value, rfl⟩

/-- Patterns that are settled one by one are settled as a list. -/
theorem mapM
    {ι : Type}
    {f : ι → Except BuildError α}
    {part : ι → List Issue}
    {list : List ι}
    (each : ∀ item ∈ list, Settled (part item) IsMade (f item)) :
    Settled (list.flatMap part) IsMade (list.mapM f) := by
  induction list with
  | nil =>
      rw [List.mapM_nil]
      exact made []
  | cons item rest inductionHypothesis =>
      obtain ⟨first, others⟩ := List.forall_mem_cons.mp each
      rw [List.mapM_cons, List.flatMap_cons, ← List.append_nil (rest.flatMap part)]
      refine first.bind fun value _ => ?_
      exact (inductionHypothesis others).bind fun values _ => made (value :: values)

/-- The order of the issues does not matter. -/
theorem congr
    {result : Except BuildError α}
    {good : Except BuildError α → Prop}
    (settled : Settled found good result)
    (same : ∀ issue, issue ∈ found ↔ issue ∈ more) :
    Settled more good result := by
  rcases settled with ⟨issue, member, failed⟩ | ⟨none, good⟩
  · exact Or.inl ⟨issue, (same issue).mp member, failed⟩
  · refine Or.inr ⟨?_, good⟩
    rw [List.eq_nil_iff_forall_not_mem]
    intro issue member
    rw [none] at same
    exact List.not_mem_nil ((same issue).mpr member)

end Settled

/-! ## Single patterns -/

/-- A pattern that is widened is judged by compiling it. -/
theorem settled_widened
    {place : Section}
    {pattern : String}
    {found : List Issue}
    (checked : widenedIssues place pattern = .ok found) :
    Settled found IsMade ((Pattern.compile {} pattern).mapError .pattern) := by
  rw [widenedIssues] at checked
  cases sound : Pattern.findings pattern.toList with
  | cons finding rest =>
      rw [sound] at checked
      cases checked
      have refused : Pattern.compile {} pattern =
          .error (.rejected ⟨pattern, .problem finding⟩) := by
        rw [Pattern.compile, sound]
      refine Or.inl ⟨⟨⟨pattern, .problem finding⟩, place⟩, ?_, ?_⟩
      · exact List.mem_map_of_mem List.mem_cons_self
      · rw [refused]
        rfl
  | nil =>
      rw [sound] at checked
      dsimp only at checked
      cases compiled : Pattern.compile {} pattern with
      | ok made =>
          rw [compiled] at checked
          cases checked
          exact Settled.made made
      | error failure =>
          rw [compiled] at checked
          cases failure with
          | regex error => cases checked
          | rejected rejection =>
              cases checked
              exact Or.inl ⟨⟨rejection, place⟩, List.mem_singleton.mpr rfl, rfl⟩

/-- An exclusion is judged with regard to case and compiled without, which makes no difference to
whether it can be used. -/
theorem settled_exclusion
    {pattern : String}
    {found : List Issue}
    (checked : exclusionIssues pattern = .ok found) :
    Settled found IsMade
      ((Pattern.compileExclusion { ignoreCase := true } pattern).mapError .pattern) := by
  have alike := Regex.compile_alike (show Regex.Flags.caseless {} =
    Regex.Flags.caseless { ignoreCase := true } from rfl) pattern.toList
  rw [exclusionIssues, Pattern.compileExclusion] at checked
  rw [Pattern.compileExclusion]
  revert checked alike
  generalize Regex.compile {} pattern.toList = one
  generalize Regex.compile { ignoreCase := true } pattern.toList = other
  intro checked alike
  cases alike with
  | ok same =>
      cases checked
      exact Settled.made _
  | error error =>
      cases error with
      | syntaxFault fault position =>
          cases checked
          exact Or.inl ⟨_, List.mem_singleton.mpr rfl, rfl⟩
      | _ => cases checked

/-! ## Lists of patterns -/

/-- What is gathered from a list comes from each item by itself. -/
theorem flatMapM_eq_ok
    {ε ι α : Type}
    {f : ι → Except ε (List α)}
    {list : List ι}
    {made : List α}
    (done : list.flatMapM f = .ok made) :
    ∃ part : ι → List α, (∀ item ∈ list, f item = .ok (part item)) ∧
      made = list.flatMap part := by
  refine ⟨fun item => (f item).toOption.getD [], ?_⟩
  induction list generalizing made with
  | nil =>
      rw [List.flatMapM_nil] at done
      cases done
      exact ⟨fun item none => absurd none List.not_mem_nil, rfl⟩
  | cons item rest inductionHypothesis =>
      rw [List.flatMapM_cons] at done
      obtain ⟨part, first, done⟩ := Regex.bind_eq_ok.mp done
      obtain ⟨others, later, done⟩ := Regex.bind_eq_ok.mp done
      cases done
      obtain ⟨each, rfl⟩ := inductionHypothesis later
      have own : part = (f item).toOption.getD [] := by
        rw [first]
        rfl
      rw [List.forall_mem_cons, List.flatMap_cons]
      exact ⟨⟨first.trans (congrArg Except.ok own), each⟩, congrArg (· ++ _) own⟩

theorem settled_list
    {rules : RuleSet}
    {found : List Issue}
    (place : Section)
    (widened : place ≠ .exclusions)
    (checked : rules.sectionIssues place = .ok found) :
    Settled found IsMade (compileList {} (rules.get place)) := by
  obtain ⟨part, each, rfl⟩ := flatMapM_eq_ok checked
  apply Settled.mapM
  intro pattern member
  have alone := each pattern member
  rw [if_neg widened] at alone
  exact settled_widened alone

theorem settled_exclusions
    {rules : RuleSet}
    {found : List Issue}
    (checked : rules.sectionIssues .exclusions = .ok found) :
    Settled found IsMade (compileExclusions rules.exclusions) := by
  obtain ⟨part, each, rfl⟩ := flatMapM_eq_ok checked
  apply Settled.mapM
  intro pattern member
  have alone := each pattern member
  rw [if_pos rfl] at alone
  exact settled_exclusion alone

/-! ## Building -/

/-- What is left of building when all patterns have been compiled. -/
def Scanner.assemble (rules : RuleSet) (licenses owners : Role → List Pattern.Compiled)
    (words : List Pattern.Compiled) (exclusions : List Regex) : Except BuildError Scanner := do
  let parts : Scan.Ingredients :=
    { limits := {}
      licenses := bodies licenses
      owners := bodies owners
      words := words.map (·.body) }
  let composite ← (Regex.compile Pattern.flags parts.composite).mapError .composite
  let slots ← slotTable composite.names
  return {
    rules := rules
    licenses := licenses
    owners := owners
    exclusions := exclusions
    expression := parts.composite
    composite := composite
    slots := slots }

/-- Building is settled by the issues, up to what is done when all patterns have been
compiled. -/
theorem settled_build
    {rules : RuleSet}
    {issues : List Issue}
    {fine : Except BuildError Scanner → Prop}
    (checked : rules.issues = .ok issues)
    (vocabulary : IsMade (compileList {} Scan.contractWords))
    (finished : ∀ licenses owners words exclusions,
      (∀ role, compileList {} (rules.get (.licenses role)) = .ok (licenses role)) →
      (∀ role, compileList {} (rules.get (.owners role)) = .ok (owners role)) →
      compileList {} Scan.contractWords = .ok words →
      fine (assemble rules licenses owners words exclusions)) :
    Settled issues fine (ofRules rules) := by
  obtain ⟨part, each, rfl⟩ := flatMapM_eq_ok checked
  have licenses (role : Role) :
      Settled (part (.licenses role)) IsMade (compileList {} (rules.get (.licenses role))) :=
    settled_list _ nofun (each _ (by cases role <;> simp [Section.all]))
  have owners (role : Role) :
      Settled (part (.owners role)) IsMade (compileList {} (rules.get (.owners role))) :=
    settled_list _ nofun (each _ (by cases role <;> simp [Section.all]))
  have exclusions : Settled (part .exclusions) IsMade (compileExclusions rules.exclusions) :=
    settled_exclusions (each _ (by simp [Section.all]))
  have words : Settled [] IsMade (compileList {} Scan.contractWords) := Or.inr ⟨rfl, vocabulary⟩
  -- Building takes the lists in another order than the check.
  have ordered : Settled
      (part (.licenses .first) ++ (part (.licenses .third) ++ (part (.licenses .forbidden) ++
        (part (.owners .first) ++ (part (.owners .third) ++ (part (.owners .forbidden) ++
          ([] ++ (part .exclusions ++ []))))))))
      fine (ofRules rules) := by
    refine (licenses .first).bind fun firstLicenses madeFirstLicenses => ?_
    refine (licenses .third).bind fun thirdLicenses madeThirdLicenses => ?_
    refine (licenses .forbidden).bind fun forbiddenLicenses madeForbiddenLicenses => ?_
    refine (owners .first).bind fun firstOwners madeFirstOwners => ?_
    refine (owners .third).bind fun thirdOwners madeThirdOwners => ?_
    refine (owners .forbidden).bind fun forbiddenOwners madeForbiddenOwners => ?_
    refine words.bind fun words madeWords => ?_
    refine exclusions.bind fun exclusions _ => ?_
    refine Or.inr ⟨rfl, finished (byRole firstLicenses thirdLicenses forbiddenLicenses)
      (byRole firstOwners thirdOwners forbiddenOwners) words exclusions ?_ ?_ madeWords⟩
    · intro role
      cases role with
      | first => exact madeFirstLicenses
      | third => exact madeThirdLicenses
      | forbidden => exact madeForbiddenLicenses
    · intro role
      cases role with
      | first => exact madeFirstOwners
      | third => exact madeThirdOwners
      | forbidden => exact madeForbiddenOwners
  apply ordered.congr
  intro issue
  simp only [Section.all, List.flatMap_cons, List.flatMap_nil, List.mem_append]
  tauto

end NoticeScan
