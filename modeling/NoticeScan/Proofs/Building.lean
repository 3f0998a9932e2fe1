import NoticeScan.Proofs.Contributions

/-!
# Building a rule set in place

A call of a builder changes a rule set list by list, and what it has added before it fails stays
there. Nothing is added before the rule that a call names has been found, so a call that fails
leaves all lists alone. A run of calls, whichever of them fail, therefore leaves the rule set that
the successful ones make up.
-/

namespace NoticeScan.RuleSet

/-! ## Calls -/

/-- Work on a rule set in place. What has been done before it fails is not taken back. -/
abbrev InPlace := EStateM Catalogue.UnknownName RuleSet

/-- Looks a rule up. -/
def lookUp (name : String) : InPlace Rule :=
  match Catalogue.find name with
  | .ok rule => pure rule
  | .error unknown => throw unknown

/-- Adds patterns at the end of a list. -/
def extend (place : Section) (patterns : List String) : InPlace Unit :=
  modify fun rules => rules.append place patterns

/-- What a call does, one thing after the other. -/
def Step.perform : Step → InPlace Unit
  | .add role name => do
      let rule ← lookUp name
      extend (.licenses role) rule.licenses
      extend (.owners role) rule.owners
      extend .exclusions rule.exclusions
  | .exclude name => do
      let rule ← lookUp name
      extend .exclusions (rule.owners ++ rule.licenses ++ rule.exclusions)
  | .pattern place text => extend place [text]

/-- Whether a call names no rule, or one of the catalogue. -/
def Step.succeeds (call : Step) : Bool :=
  call.complaint?.isNone

/-- A call in place comes to what the step does to the rule set as a whole, and changes nothing
when that fails. -/
theorem perform_eq (call : Step) (rules : RuleSet) :
    call.perform rules =
      match rules.step call with
      | .ok changed => .ok () changed
      | .error unknown => .error unknown rules := by
  cases call with
  | add role name =>
      simp only [Step.perform, lookUp, step]
      cases Catalogue.find name <;> rfl
  | exclude name =>
      simp only [Step.perform, lookUp, step]
      cases Catalogue.find name <;> rfl
  | pattern place text => rfl

variable {call : Step}

theorem perform_of_complaint
    {unknown : Catalogue.UnknownName}
    (complains : call.complaint? = some unknown)
    (rules : RuleSet) :
    call.perform rules = .error unknown rules := by
  rw [perform_eq, step_eq, complains]

theorem perform_of_succeeds
    (succeeds : call.complaint? = none)
    (rules : RuleSet) :
    call.perform rules = .ok () (rules.tryStep call) := by
  rw [perform_eq, step_eq, succeeds]

/-! ## Runs -/

/-- What a call answers, and the rule set that it leaves. -/
def Step.answer (call : Step) (rules : RuleSet) : Option Catalogue.UnknownName × RuleSet :=
  match call.perform rules with
  | .ok () changed => (none, changed)
  | .error unknown changed => (some unknown, changed)

/-- Makes calls one after the other, whichever of them fail: what each of them answers, and the
rule set that they leave. -/
def performAll : List Step → RuleSet → List (Option Catalogue.UnknownName) × RuleSet
  | [], rules => ([], rules)
  | call :: rest, rules =>
      let (answer, changed) := call.answer rules
      let (answers, last) := performAll rest changed
      (answer :: answers, last)

theorem answer_eq (call : Step) (rules : RuleSet) :
    call.answer rules = (call.complaint?, rules.tryStep call) := by
  rw [Step.answer]
  cases complains : call.complaint? with
  | some unknown =>
      rw [perform_of_complaint complains, tryStep, step_eq, complains]
  | none => rw [perform_of_succeeds complains]

theorem performAll_eq (calls : List Step) (rules : RuleSet) :
    performAll calls rules = (calls.map Step.complaint?, calls.foldl tryStep rules) := by
  induction calls generalizing rules with
  | nil => rfl
  | cons call rest inductionHypothesis =>
      simp only [performAll, answer_eq, inductionHypothesis, List.map_cons, List.foldl_cons]

/-- Calls that fail contribute nothing. -/
theorem flatMap_contribution (calls : List Step) (place : Section) :
    calls.flatMap (Step.contribution place) =
      (calls.filter Step.succeeds).flatMap (Step.contribution place) := by
  induction calls with
  | nil => rfl
  | cons call rest inductionHypothesis =>
      rw [List.flatMap_cons, inductionHypothesis, List.filter_cons, Step.succeeds]
      cases complains : call.complaint? with
      | some unknown => rw [contribution_of_complaint complains]; rfl
      | none => rfl

/-- Runs with the same successful calls leave the same rule set. -/
theorem run_eq_of_filter
    {calls others : List Step}
    (same : others.filter Step.succeeds = calls.filter Step.succeeds) :
    run others = run calls := by
  apply eq_of_get
  intro place
  rw [get_run, get_run, flatMap_contribution, same, ← flatMap_contribution]

/-- Calls of which none fails can be made without looking out for failures. -/
theorem steps_of_succeeds
    {calls : List Step}
    (succeed : ∀ call ∈ calls, call.succeeds = true)
    (rules : RuleSet) :
    rules.steps calls = .ok (calls.foldl tryStep rules) := by
  induction calls generalizing rules with
  | nil => rfl
  | cons call rest inductionHypothesis =>
      obtain ⟨here, later⟩ := List.forall_mem_cons.mp succeed
      rw [steps, List.foldlM_cons, step_eq, Option.isNone_iff_eq_none.mp here]
      exact inductionHypothesis later _

/-- In every run of calls, the ones that name an unknown rule complain and leave all lists as they
were, and each list in the end is what the others contribute to it, one after the other. So the
calls that fail may as well be left out, some of them or all. -/
theorem performAll_contributions (calls : List Step) :
    (∀ (call : Step) (unknown : Catalogue.UnknownName) (rules : RuleSet),
      call.complaint? = some unknown →
        rules.step call = .error unknown ∧ call.perform rules = .error unknown rules) ∧
    (∀ (call : Step) (rules : RuleSet), call.complaint? = none →
      ∃ changed, rules.step call = .ok changed ∧ call.perform rules = .ok () changed ∧
        ∀ place, changed.get place = rules.get place ++ call.contribution place) ∧
    (performAll calls {}).1 = calls.map Step.complaint? ∧
    (∀ place, (performAll calls {}).2.get place =
      (calls.filter Step.succeeds).flatMap (Step.contribution place)) ∧
    (performAll calls {}).2 = run calls ∧
    steps {} (calls.filter Step.succeeds) = .ok (run calls) ∧
    ∀ others, others.filter Step.succeeds = calls.filter Step.succeeds →
      (performAll others {}).2 = (performAll calls {}).2 := by
  have left (some : List Step) : (performAll some {}).2 = run some :=
    congrArg Prod.snd (performAll_eq some {})
  refine ⟨?_, ?_, congrArg Prod.fst (performAll_eq calls {}), ?_, left calls, ?_, ?_⟩
  · intro call unknown rules complains
    exact ⟨by rw [step_eq, complains], perform_of_complaint complains rules⟩
  · intro call rules succeeds
    exact ⟨_, by rw [step_eq, succeeds], perform_of_succeeds succeeds rules,
      get_tryStep rules call⟩
  · intro place
    rw [left, get_run, flatMap_contribution]
  · have succeed : ∀ call ∈ calls.filter Step.succeeds, call.succeeds = true :=
      fun _ member => (List.mem_filter.mp member).2
    have twice : (calls.filter Step.succeeds).filter Step.succeeds =
        calls.filter Step.succeeds := List.filter_eq_self.mpr succeed
    rw [steps_of_succeeds succeed, ← run_eq_of_filter twice]
    rfl
  · intro others same
    rw [left, left, run_eq_of_filter same]

/-- A call in the middle fails; the ones before and behind it do not. -/
example :
    performAll [.pattern .exclusions "a", .add .third "MTT", .add .third "UPL"] {} =
      ([none, some ⟨"MTT", ["MIT"]⟩, none],
        { thirdLicenses := Catalogue.upl.licenses, exclusions := ["a"] }) := by
  decide +kernel

end NoticeScan.RuleSet
