import NoticeScan.Catalogue.Lookup

/-!
# Rule sets

The patterns that a project looks for, in seven lists: the licences and the owners of three
roles, and the exclusions. A rule set is built up step by step from rules of the catalogue and
from patterns of its own; a step that names an unknown rule changes nothing.
-/

namespace NoticeScan

/-- What a licence or an owner is to a project. -/
inductive Role where
  | first
  | third
  | forbidden
  deriving Repr, DecidableEq

/-- One of the lists of a rule set. -/
inductive Section where
  | licenses (role : Role)
  | owners (role : Role)
  | exclusions
  deriving Repr, DecidableEq

namespace Section

/-- All lists, in the order in which they are written. -/
def all : List Section :=
  [ .licenses .first, .owners .first, .licenses .third, .owners .third,
    .licenses .forbidden, .owners .forbidden, .exclusions ]

theorem mem_all (place : Section) : place ∈ all := by
  rcases place with (_ | _ | _) | (_ | _ | _) | _ <;> decide

/-- The short heading of a list. -/
def heading : Section → String
  | .licenses .first => "1pl"
  | .owners .first => "1po"
  | .licenses .third => "3pl"
  | .owners .third => "3po"
  | .licenses .forbidden => "!!l"
  | .owners .forbidden => "!!o"
  | .exclusions => "xx"

/-- The name of a list in a configuration. -/
def key : Section → String
  | .licenses .first => "first_party_licenses"
  | .owners .first => "first_party_owners"
  | .licenses .third => "third_party_licenses"
  | .owners .third => "third_party_owners"
  | .licenses .forbidden => "forbidden_licenses"
  | .owners .forbidden => "forbidden_owners"
  | .exclusions => "exclude_patterns"

end Section

/-- The patterns of a project. -/
structure RuleSet where
  firstLicenses : List String := []
  firstOwners : List String := []
  thirdLicenses : List String := []
  thirdOwners : List String := []
  forbiddenLicenses : List String := []
  forbiddenOwners : List String := []
  exclusions : List String := []
  deriving Repr, DecidableEq

namespace RuleSet

/-- One of the lists. -/
def get (rules : RuleSet) : Section → List String
  | .licenses .first => rules.firstLicenses
  | .owners .first => rules.firstOwners
  | .licenses .third => rules.thirdLicenses
  | .owners .third => rules.thirdOwners
  | .licenses .forbidden => rules.forbiddenLicenses
  | .owners .forbidden => rules.forbiddenOwners
  | .exclusions => rules.exclusions

/-- A rule set with patterns added at the end of one list. -/
def append (rules : RuleSet) (place : Section) (patterns : List String) : RuleSet :=
  match place with
  | .licenses .first => { rules with firstLicenses := rules.firstLicenses ++ patterns }
  | .owners .first => { rules with firstOwners := rules.firstOwners ++ patterns }
  | .licenses .third => { rules with thirdLicenses := rules.thirdLicenses ++ patterns }
  | .owners .third => { rules with thirdOwners := rules.thirdOwners ++ patterns }
  | .licenses .forbidden =>
      { rules with forbiddenLicenses := rules.forbiddenLicenses ++ patterns }
  | .owners .forbidden => { rules with forbiddenOwners := rules.forbiddenOwners ++ patterns }
  | .exclusions => { rules with exclusions := rules.exclusions ++ patterns }

@[simp]
theorem get_append (rules : RuleSet) (place other : Section) (patterns : List String) :
    (rules.append place patterns).get other =
      if place = other then rules.get other ++ patterns else rules.get other := by
  rcases place with (_ | _ | _) | (_ | _ | _) | _ <;>
    rcases other with (_ | _ | _) | (_ | _ | _) | _ <;> rfl

/-- Whether a rule set has no patterns at all. -/
def isEmpty (rules : RuleSet) : Bool :=
  Section.all.all fun place => (rules.get place).isEmpty

/-! ## Building -/

/-- A step in building a rule set. -/
inductive Step where
  /-- A rule of the catalogue takes a role. -/
  | add (role : Role) (name : String)
  /-- All patterns of a rule are exclusions. -/
  | exclude (name : String)
  /-- A pattern of the project's own. -/
  | pattern (place : Section) (pattern : String)
  deriving Repr, DecidableEq

/-- Adds the patterns of a rule in a role. -/
def addRule (rules : RuleSet) (role : Role) (rule : Rule) : RuleSet :=
  ((rules.append (.licenses role) rule.licenses).append (.owners role) rule.owners).append
    .exclusions rule.exclusions

/-- Adds all patterns of a rule to the exclusions. -/
def excludeRule (rules : RuleSet) (rule : Rule) : RuleSet :=
  rules.append .exclusions (rule.owners ++ rule.licenses ++ rule.exclusions)

/-- A rule set after a step. -/
def step (rules : RuleSet) : Step → Except Catalogue.UnknownName RuleSet
  | .add role name => (Catalogue.find name).map (rules.addRule role)
  | .exclude name => (Catalogue.find name).map rules.excludeRule
  | .pattern place pattern => .ok (rules.append place [pattern])

/-- A rule set after a step, or as it was if the step fails. -/
def tryStep (rules : RuleSet) (next : Step) : RuleSet :=
  match rules.step next with
  | .ok changed => changed
  | .error _ => rules

/-- A rule set after several steps, all of which have to succeed. -/
def steps (rules : RuleSet) (list : List Step) : Except Catalogue.UnknownName RuleSet :=
  list.foldlM step rules

/-- The rule set that a run of steps leaves, whichever of them fail. -/
def run (list : List Step) : RuleSet :=
  list.foldl tryStep {}

end RuleSet

end NoticeScan
