import NoticeScan.Pattern.Compiled
import NoticeScan.RuleSet.Basic

/-!
# Checking a rule set

All problems of the patterns of a rule set, list by list. A pattern without problems of its own is
also compiled, within the usual bounds, so that a fault in its expression is found here and not
when it is used.
-/

namespace NoticeScan.RuleSet

/-- A pattern of a list that is refused. -/
structure Issue where
  rejection : Pattern.Rejection
  place : Section
  deriving Repr, DecidableEq

/-- The issues of a pattern that is widened. -/
def widenedIssues (place : Section) (pattern : String) : Except Regex.Error (List Issue) :=
  match Pattern.findings pattern.toList with
  | [] =>
      match Pattern.compile {} pattern with
      | .ok _ => .ok []
      | .error (.rejected rejection) => .ok [⟨rejection, place⟩]
      | .error (.regex error) => .error error
  | found => .ok (found.map fun finding => ⟨⟨pattern, .problem finding⟩, place⟩)

/-- The issues of an exclusion. -/
def exclusionIssues (pattern : String) : Except Regex.Error (List Issue) :=
  match Pattern.compileExclusion {} pattern with
  | .ok _ => .ok []
  | .error (.rejected rejection) => .ok [⟨rejection, .exclusions⟩]
  | .error (.regex error) => .error error

/-- The issues of one list. -/
def sectionIssues (rules : RuleSet) (place : Section) : Except Regex.Error (List Issue) :=
  (rules.get place).flatMapM fun pattern =>
    if place = .exclusions then exclusionIssues pattern else widenedIssues place pattern

/-- All issues of a rule set. An expression that fails in another way than by a fault in its text
fails the check. -/
def issues (rules : RuleSet) : Except Regex.Error (List Issue) :=
  Section.all.flatMapM rules.sectionIssues

end NoticeScan.RuleSet
