import NoticeScan.Json.Reader
import NoticeScan.RuleSet.Validation
import NoticeScan.Text.Utf8

/-!
# Configurations

A rules file holds one object. Four of its fields list names of the catalogue, seven list
patterns, and one tells whether third-party findings are allowed. All problems of a file are
collected before it is refused.
-/

namespace NoticeScan

/-- What a project looks for and what it allows. -/
structure Config where
  rules : RuleSet := {}
  thirdPartyAllowed : Bool := false
  deriving Repr, DecidableEq

namespace Config

/-! ## Problems -/

/-- What is wrong with a field, or with the whole file. -/
inductive Problem where
  | notObject
  | unknownKey
  | notStrings
  | notTruthValue
  | unknownName (unknown : Catalogue.UnknownName)
  | pattern (rejection : Pattern.Rejection)
  deriving Repr, DecidableEq

/-- The wording of a problem. -/
def Problem.message : Problem → String
  | .notObject => "expected a JSON object"
  | .unknownKey => "unknown key"
  | .notStrings => "expected a list of strings"
  | .notTruthValue => "expected true or false"
  | .unknownName unknown => unknown.message
  | .pattern rejection => rejection.message

/-- A problem with the field that it is in and the value that is complained of. The key is empty
when the whole file is meant. -/
structure Issue where
  key : String
  value : Json
  problem : Problem

/-- Why a rules file is refused. -/
inductive Failure where
  | notJson
  | issues (list : List Issue)
  /-- An expression fails in another way than by a fault in its text. -/
  | regex (error : Regex.Error)

/-- An issue on one line. -/
def Issue.line (issue : Issue) : String :=
  issue.key ++ ": " ++ issue.problem.message

/-- The wording of a list of issues. -/
def issuesMessage (list : List Issue) : String :=
  "Invalid scan configuration:\n" ++ String.intercalate "\n" (list.map Issue.line)

/-! ## Fields -/

/-- A field that lists strings, and the step in building a rule set that each of them is. -/
structure StepField where
  key : String
  step : String → RuleSet.Step

/-- The fields that list names of the catalogue. -/
def nameFields : List StepField :=
  [ ⟨"first_party", .add .first⟩, ⟨"third_party", .add .third⟩, ⟨"forbidden", .add .forbidden⟩,
    ⟨"exclude", .exclude⟩ ]

/-- The fields that list patterns. -/
def patternFields : List StepField :=
  Section.all.map fun place => ⟨place.key, .pattern place⟩

/-- All fields that list strings, in the order in which they are read. -/
def stepFields : List StepField :=
  nameFields ++ patternFields

/-- The field that tells whether third-party findings are allowed. -/
def permissionKey : String :=
  "third_party_allowed"

/-- The names of all fields. -/
def knownKeys : List String :=
  stepFields.map StepField.key ++ [permissionKey]

/-- The strings of a field; none if it is missing. -/
def StepField.strings? (field : StepField) (fields : List (String × Json)) :
    Option (List String) :=
  match fields.lookup field.key with
  | some value => value.asStrings?
  | none => some []

/-- The steps that a field asks for. -/
def StepField.steps (field : StepField) (fields : List (String × Json)) : List RuleSet.Step :=
  ((field.strings? fields).getD []).map field.step

/-- The name in a step that is not in the catalogue. -/
def unknownName? (step : RuleSet.Step) : Option Catalogue.UnknownName :=
  match RuleSet.step {} step with
  | .ok _ => none
  | .error unknown => some unknown

/-- The issues of a field that lists strings. -/
def StepField.issues (field : StepField) (fields : List (String × Json)) : List Issue :=
  match field.strings? fields with
  | none => [⟨field.key, (fields.lookup field.key).getD .null, .notStrings⟩]
  | some strings =>
      strings.filterMap fun text =>
        (unknownName? (field.step text)).map fun unknown =>
          ⟨field.key, .string text, .unknownName unknown⟩

/-- The fields of unknown names, in ascending order of the names. -/
def unknownKeyIssues (fields : List (String × Json)) : List Issue :=
  ((fields.filter fun field => !knownKeys.contains field.1).mergeSort fun one other =>
    decide (one.1 ≤ other.1)).map fun field => ⟨field.1, field.2, .unknownKey⟩

/-- The issue of a permission that is no truth value. -/
def permissionIssues (fields : List (String × Json)) : List Issue :=
  match fields.lookup permissionKey with
  | none | some (.bool _) => []
  | some value => [⟨permissionKey, value, .notTruthValue⟩]

/-- Whether the fields allow third-party findings. -/
def permission (fields : List (String × Json)) : Bool :=
  ((fields.lookup permissionKey).bind Json.asBool?).getD false

/-- The issue of a pattern. -/
def patternIssue (issue : RuleSet.Issue) : Issue :=
  ⟨issue.place.key, .string issue.rejection.pattern, .pattern issue.rejection⟩

/-! ## Reading -/

/-- The rules that fields ask for; names that are not in the catalogue are left out. -/
def rulesOf (fields : List (String × Json)) : RuleSet :=
  RuleSet.run (stepFields.flatMap fun field => field.steps fields)

/-- The issues of all fields apart from those of the patterns themselves. -/
def fieldIssues (fields : List (String × Json)) : List Issue :=
  unknownKeyIssues fields ++ (stepFields.flatMap fun field => field.issues fields) ++
    permissionIssues fields

/-- The configuration of some fields. -/
def ofFields (fields : List (String × Json)) : Except Failure Config :=
  let rules := rulesOf fields
  match rules.issues with
  | .error error => .error (.regex error)
  | .ok found =>
      match fieldIssues fields ++ found.map patternIssue with
      | [] => .ok { rules := rules, thirdPartyAllowed := permission fields }
      | list => .error (.issues list)

/-- The configuration of a value. -/
def ofJson : Json → Except Failure Config
  | .object fields => ofFields fields
  | value => .error (.issues [⟨"", value, .notObject⟩])

/-- The configuration in the bytes of a rules file. -/
def ofBytes (bytes : List UInt8) : Except Failure Config :=
  match (Text.Utf8.decode? bytes).bind (Json.parseWith? Json.narrowInteger) with
  | some value => ofJson value
  | none => .error .notJson

end Config

end NoticeScan
