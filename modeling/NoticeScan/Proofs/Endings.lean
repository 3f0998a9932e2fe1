import NoticeScan.Proofs.Breakages
import NoticeScan.Proofs.RulesFiles

/-!
# What becomes of a value that is taken for a configuration

A configuration, issues, or a failure of the check that nobody answers for. The last happens only
where an expression fails otherwise than by a fault, for which its text must hold the reason.
-/

namespace NoticeScan

open NoticeScan.Pattern

/-! ## Patterns -/

namespace RuleSet

/-- The expression that is compiled for a pattern of a list. -/
def expression (place : Section) (pattern : String) : Expr :=
  if place = .exclusions then pattern.toList
  else wholeExpr pattern.toList (widen {} pattern.toList)

theorem eq_of_ofError
    {pattern : String}
    {cause : Regex.Fault → Option Nat → Cause}
    {other error : Regex.Error}
    (same : Failure.ofError pattern cause other = .regex error) :
    other = error := by
  cases other <;> cases same <;> rfl

theorem breaks_of_compile
    {flags : Regex.Flags}
    {source : Expr}
    {pattern : String}
    {cause : Regex.Fault → Option Nat → Cause}
    {other error : Regex.Error}
    (compiled : Regex.compile flags source = .error other)
    (same : Failure.ofError pattern cause other = .regex error) :
    Regex.Breaks source error := by
  have ends := Regex.ends_compile flags source
  rw [compiled] at ends
  cases ends with
  | fault fault position => cases same
  | breaks breaks => exact eq_of_ofError same ▸ breaks

/-- A pattern that breaks the check has the reason for that in its expression. -/
theorem FailsWith.breaks
    {place : Section}
    {pattern : String}
    {error : Regex.Error}
    (failed : FailsWith place pattern (.regex error)) :
    Regex.Breaks (expression place pattern) error := by
  unfold FailsWith at failed
  unfold expression
  split at failed
  · rename_i exclusion
    rw [if_pos exclusion]
    unfold compileExclusion at failed
    split at failed
    · cases failed
    · rename_i other compiled
      exact breaks_of_compile compiled (Except.error.inj failed)
  · rename_i widened
    rw [if_neg widened]
    unfold compile at failed
    dsimp only at failed
    split at failed
    · cases failed
    · split at failed
      · rename_i other compiled
        exact breaks_of_compile compiled (Except.error.inj failed)
      · cases failed

end RuleSet

/-! ## Values -/

namespace Config

end Config

end NoticeScan
