import NoticeScan.Proofs.NearestNames
import NoticeScan.RuleSet.Basic

/-!
# What steps contribute to a rule set

Every step adds patterns at the ends of lists, and which ones it adds does not depend on what is
there. So a list of the rule set that a run of steps leaves is put together from what the single
steps contribute to it; a step that fails, which is one that names an unknown rule, contributes
nothing.
-/

namespace NoticeScan

/-- The patterns that a rule in a role has for a list. -/
def Rule.inRole (rule : Rule) (role : Role) : Section → List String
  | .licenses other => if other = role then rule.licenses else []
  | .owners other => if other = role then rule.owners else []
  | .exclusions => rule.exclusions

/-- The patterns that a rule has for a list when it is excluded. -/
def Rule.excluded (rule : Rule) : Section → List String
  | .exclusions => rule.owners ++ rule.licenses ++ rule.exclusions
  | _ => []

namespace RuleSet

/-- What a step contributes to a list. -/
def Step.contribution (place : Section) : Step → List String
  | .add role name => (Catalogue.entries.lookup name).toList.flatMap (·.inRole role place)
  | .exclude name => (Catalogue.entries.lookup name).toList.flatMap (·.excluded place)
  | .pattern other text => if other = place then [text] else []

/-- The name in a step that is not in the catalogue, with what is suggested for it. -/
def Step.complaint? : Step → Option Catalogue.UnknownName
  | .add _ name | .exclude name =>
      if name ∈ Catalogue.names then none else some ⟨name, Catalogue.suggestions name⟩
  | .pattern _ _ => none

variable {first second : RuleSet}

theorem eq_of_get
    (same : ∀ place, first.get place = second.get place) :
    first = second := by
  cases first
  cases second
  rw [mk.injEq]
  exact ⟨same (.licenses .first), same (.owners .first), same (.licenses .third),
    same (.owners .third), same (.licenses .forbidden), same (.owners .forbidden),
    same .exclusions⟩

@[simp]
theorem get_addRule (rules : RuleSet) (role : Role) (rule : Rule) (place : Section) :
    (rules.addRule role rule).get place = rules.get place ++ rule.inRole role place := by
  cases place with
  | licenses other => by_cases same : role = other <;> simp [addRule, Rule.inRole, same, eq_comm]
  | owners other => by_cases same : role = other <;> simp [addRule, Rule.inRole, same, eq_comm]
  | exclusions => simp [addRule, Rule.inRole]

@[simp]
theorem get_excludeRule (rules : RuleSet) (rule : Rule) (place : Section) :
    (rules.excludeRule rule).get place = rules.get place ++ rule.excluded place := by
  cases place <;> simp [excludeRule, Rule.excluded]

/-- A step adds its contribution at the end of each list, and nothing if it fails. -/
theorem get_tryStep (rules : RuleSet) (next : Step) (place : Section) :
    (rules.tryStep next).get place = rules.get place ++ next.contribution place := by
  cases next with
  | add role name =>
      cases known : Catalogue.entries.lookup name <;>
        simp [tryStep, step, Step.contribution, Catalogue.find, known, Except.map]
  | exclude name =>
      cases known : Catalogue.entries.lookup name <;>
        simp [tryStep, step, Step.contribution, Catalogue.find, known, Except.map]
  | pattern other text =>
      by_cases same : other = place <;> simp [tryStep, step, Step.contribution, same]

/-- A step fails exactly if it names an unknown rule. -/
theorem step_eq (rules : RuleSet) (call : Step) :
    rules.step call =
      match call.complaint? with
      | some unknown => .error unknown
      | none => .ok (rules.tryStep call) := by
  cases call with
  | pattern place text => rfl
  | add role name | exclude name =>
      by_cases known : name ∈ Catalogue.names
      · obtain ⟨rule, found⟩ := Catalogue.exists_find_of_mem known
        simp [Step.complaint?, known, tryStep, step, found, Except.map]
      · have missing := Catalogue.find_of_notMem known
        simp [Step.complaint?, known, step, missing, Except.map]

theorem contribution_of_complaint
    {call : Step}
    {unknown : Catalogue.UnknownName}
    (complains : call.complaint? = some unknown)
    (place : Section) :
    call.contribution place = [] := by
  cases call with
  | pattern other text => cases complains
  | add role name | exclude name =>
      rw [Step.complaint?] at complains
      split_ifs at complains with known
      rw [Step.contribution, Catalogue.lookup_eq_none_iff.mpr known]
      rfl

/-- A list that a run leaves is put together from what its steps contribute. -/
theorem get_run (list : List Step) (place : Section) :
    (run list).get place = list.flatMap (Step.contribution place) := by
  have behind (rules : RuleSet) :
      (list.foldl tryStep rules).get place =
        rules.get place ++ list.flatMap (Step.contribution place) := by
    induction list generalizing rules with
    | nil => simp
    | cons next rest inductionHypothesis => simp [inductionHypothesis, get_tryStep]
  have empty : ({} : RuleSet).get place = [] := by
    rcases place with (_ | _ | _) | (_ | _ | _) | _ <;> rfl
  rw [run, behind, empty, List.nil_append]

end RuleSet

end NoticeScan
