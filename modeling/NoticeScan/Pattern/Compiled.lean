import NoticeScan.Pattern.Check
import NoticeScan.Pattern.Widen
import NoticeScan.Regex.Search

/-!
# Compiled patterns

A pattern in its two forms: the inline form, which is put into larger expressions, and the whole
form, which is matched against complete texts.
-/

namespace NoticeScan.Pattern

/-- The flags under which patterns are compiled. -/
def flags : Regex.Flags where
  ignoreCase := true
  multiLine := true
  dotAll := true

/-- Why a pattern is refused. -/
inductive Cause where
  /-- It has a problem of its own. -/
  | problem (finding : Finding)
  /-- The expression that it is widened to is not well formed. -/
  | expression (fault : Regex.Fault) (position : Option Nat)
  /-- It is an exclusion, which is not widened, and not well formed. -/
  | exclusion (fault : Regex.Fault) (position : Option Nat)
  deriving Repr, DecidableEq

/-- A pattern that is refused. -/
structure Rejection where
  pattern : String
  cause : Cause
  deriving Repr, DecidableEq

/-- The wording of a rejection. -/
def Rejection.message (rejection : Rejection) : String :=
  match rejection.cause with
  | .problem finding => finding.problem.message rejection.pattern
  | .expression fault _ =>
      "Invalid pattern /" ++ rejection.pattern ++ "/: " ++ String.ofList fault.message
  | .exclusion fault _ =>
      "Invalid exclusion /" ++ rejection.pattern ++ "/: " ++ String.ofList fault.message

/-- The place of a rejection: in the pattern, or in the expression if that was complained of; the
start if there is none. -/
def Rejection.position (rejection : Rejection) : Nat :=
  match rejection.cause with
  | .problem finding => finding.position
  | .expression _ position => position.getD 0
  | .exclusion _ position => position.getD 0

/-- Why compiling a pattern fails. -/
inductive Failure where
  | rejected (rejection : Rejection)
  /-- The expression fails in another way than by a fault in its text. -/
  | regex (error : Regex.Error)
  deriving Repr, DecidableEq

/-- The wording of a failure. -/
def Failure.message : Failure → String
  | .rejected rejection => rejection.message
  | .regex error => error.message

/-- The failure that an error of an expression amounts to: a fault in the text refuses the
pattern. -/
def Failure.ofError (pattern : String) (cause : Regex.Fault → Option Nat → Cause) :
    Regex.Error → Failure
  | .syntaxFault fault position => .rejected ⟨pattern, cause fault position⟩
  | error => .regex error

/-- A pattern with its two forms. -/
structure Compiled where
  source : String
  /-- The inline form. -/
  body : Expr
  looseStart : Bool
  looseEnd : Bool
  /-- The text of the whole form. -/
  whole : Expr
  /-- The whole form. -/
  regex : Regex
  deriving Repr, DecidableEq

/-- Compiles a pattern. -/
def compile (limits : Limits) (pattern : String) : Except Failure Compiled :=
  let text := pattern.toList
  match findings text with
  | finding :: _ => .error (.rejected ⟨pattern, .problem finding⟩)
  | [] =>
      let body := widen limits text
      let whole := wholeExpr text body
      match Regex.compile flags whole with
      | .error error => .error (.ofError pattern .expression error)
      | .ok regex =>
          .ok
            { source := pattern
              body := body
              looseStart := looseStart text
              looseEnd := looseEnd text
              whole := whole
              regex := regex }

/-- Whether a text is what a pattern describes. -/
def Compiled.describes (pattern : Compiled) (text : Array Char) : Bool :=
  pattern.regex.matchesWhole text

/-- Compiles an exclusion, which is a regular expression as it stands. -/
def compileExclusion (flags : Regex.Flags) (pattern : String) : Except Failure Regex :=
  match Regex.compile flags pattern.toList with
  | .ok regex => .ok regex
  | .error error => .error (.ofError pattern .exclusion error)

end NoticeScan.Pattern
