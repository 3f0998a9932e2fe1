import NoticeScan.Files.Path
import NoticeScan.Regex.Search

/-!
# Arguments

Arguments are sorted into words and options first and then read in order. A long option may be
shortened as long as it is not mistaken for another one; short options may be written together,
and the value of an option may be attached to it. The paths to scan stand side by side; behind
two dashes everything is a word.
-/

namespace NoticeScan.CommandLine

/-! ## Options -/

/-- The options. -/
inductive Flag where
  | help
  | rules
  | output
  | verbose
  deriving Repr, DecidableEq

/-- Whether an option has a value. -/
def Flag.hasValue : Flag → Bool
  | .rules | .output => true
  | .help | .verbose => false

/-- The spellings of the options. -/
def spellings : List (List Char × Flag) :=
  [ ("-h".toList, .help), ("--help".toList, .help), ("--rules".toList, .rules),
    ("--output".toList, .output), ("-o".toList, .output), ("--verbose".toList, .verbose),
    ("-v".toList, .verbose) ]

/-- Why arguments are refused. -/
inductive UsageError where
  | ambiguous (argument : List Char)
  | valueMissing (flag : Flag)
  | valueUnwanted (flag : Flag) (value : List Char)
  | pathsMissing
  | unrecognized (arguments : List (List Char))
  deriving Repr, DecidableEq

/-- The name of an option in a complaint. -/
def Flag.title : Flag → String
  | .help => "-h/--help"
  | .rules => "--rules"
  | .output => "--output/-o"
  | .verbose => "--verbose/-v"

/-- The wording of a complaint. -/
def UsageError.message : UsageError → String
  | .ambiguous argument => "ambiguous option: " ++ String.ofList argument
  | .valueMissing flag => "argument " ++ flag.title ++ ": expected one argument"
  | .valueUnwanted flag value =>
      "argument " ++ flag.title ++ ": ignored explicit argument " ++ String.ofList value
  | .pathsMissing => "the following arguments are required: paths"
  | .unrecognized arguments =>
      "unrecognized arguments: " ++
        String.ofList (List.intercalate [' '] arguments)

/-! ## Sorting -/

/-- An argument by its form. -/
inductive Piece where
  | word (text : List Char)
  /-- An option; `attached` is what is written behind its name in the same argument, and `short`
  tells whether the name has a single dash. -/
  | option (flag : Flag) (short : Bool) (attached : Option (List Char))
  /-- Something with a dash that is no option. -/
  | stranger (text : List Char)
  /-- The two dashes behind which there are no more options. -/
  | dashes
  deriving Repr, DecidableEq

/-- Whether a spelling has a single dash. -/
def isShort : List Char → Bool
  | '-' :: '-' :: _ => false
  | _ => true

/-- A text cut at its first equality sign. -/
def cutAtEquals (s : List Char) : List Char × Option (List Char) :=
  match s.dropWhile (· != '=') with
  | [] => (s, none)
  | _ :: value => (s.takeWhile (· != '='), some value)

/-- The options that an argument may be a short form of. -/
def candidates (argument : List Char) : List Piece :=
  if isShort argument then
    (spellings.filter fun spelling => spelling.1 == argument.take 2).map fun spelling =>
      .option spelling.2 true (some (argument.drop 2))
  else
    let (name, value) := cutAtEquals argument
    (spellings.filter fun spelling => name.isPrefixOf spelling.1).map fun spelling =>
      .option spelling.2 false value

/-- Negative numbers are words, not options. -/
def negativeNumber : Regex :=
  Regex.ofText {} "^-\\d+$|^-\\d*\\.\\d+$".toList

/-- An argument that starts with a dash and is no option in full. -/
def sortUnknown (argument : List Char) : Except UsageError Piece :=
  match candidates argument with
  | [piece] => .ok piece
  | _ :: _ :: _ => .error (.ambiguous argument)
  | [] =>
      if negativeNumber.matchesStart argument.toArray || argument.contains ' ' then
        .ok (.word argument)
      else
        .ok (.stranger argument)

/-- The form of an argument in front of the two dashes. -/
def sort (argument : List Char) : Except UsageError Piece :=
  if argument.head? ≠ some '-' || argument == ['-'] then
    .ok (.word argument)
  else
    match spellings.lookup argument with
    | some flag => .ok (.option flag (isShort argument) none)
    | none =>
        match cutAtEquals argument with
        | (name, some value) =>
            match spellings.lookup name with
            | some flag => .ok (.option flag (isShort name) (some value))
            | none => sortUnknown argument
        | (_, none) => sortUnknown argument

/-- The forms of all arguments. -/
def sortAll : List (List Char) → Except UsageError (List Piece)
  | [] => .ok []
  | argument :: rest =>
      if argument = ['-', '-'] then
        .ok (.dashes :: rest.map .word)
      else
        match sort argument, sortAll rest with
        | .ok piece, .ok pieces => .ok (piece :: pieces)
        | .error error, _ => .error error
        | _, .error error => .error error

/-! ## Reading -/

/-- What is asked for. -/
structure Request where
  paths : List Path
  rules : Option Path := none
  output : Option Path := none
  verbose : Bool := false
  deriving Repr, DecidableEq

/-- What arguments amount to. -/
inductive Command where
  | help
  | scan (request : Request)
  deriving Repr, DecidableEq

/-- The state of reading. Paths are collected as long as they stand side by side. -/
structure Draft where
  paths : List (List Char) := []
  /-- An option has been read behind the paths. -/
  pathsClosed : Bool := false
  rules : Option (List Char) := none
  output : Option (List Char) := none
  verbose : Bool := false
  /-- The option whose value has to be the next argument. -/
  waiting : Option Flag := none
  /-- Help has been asked for. -/
  helpWanted : Bool := false
  /-- Arguments that belong to nothing. -/
  extras : List (List Char) := []
  deriving Repr, DecidableEq

/-- What ends the reading early. -/
inductive Stop where
  | help
  | refused (error : UsageError)
  deriving Repr, DecidableEq

namespace Draft

/-- Reads a word. -/
def word (draft : Draft) (text : List Char) : Draft :=
  if draft.pathsClosed then { draft with extras := draft.extras ++ [text] }
  else { draft with paths := draft.paths ++ [text] }

/-- Reads the two dashes, which count as a word only behind closed paths. -/
def dashes (draft : Draft) : Draft :=
  if draft.pathsClosed then { draft with extras := draft.extras ++ [['-', '-']] } else draft

/-- Reads an argument that is no option. -/
def stranger (draft : Draft) (text : List Char) : Draft :=
  { draft with extras := draft.extras ++ [text] }

/-- No paths can be added once an option stands behind them. -/
def close (draft : Draft) : Draft :=
  { draft with pathsClosed := draft.pathsClosed || !draft.paths.isEmpty }

/-- Sets the value of an option. -/
def setValue (draft : Draft) (flag : Flag) (value : List Char) : Draft :=
  match flag with
  | .rules => { draft with rules := some value }
  | .output => { draft with output := some value }
  | .help | .verbose => draft

/-- Goes on once all options of an argument have their values. -/
def settle (draft : Draft) : Except Stop Draft :=
  if draft.helpWanted then .error .help else .ok { draft with waiting := none }

end Draft

/-- Options written together: those without a value, and the one behind them that has a value,
with the value if it is attached. -/
structure Cluster where
  plain : List Flag := []
  valued : Option (Flag × Option (List Char)) := none
  deriving Repr, DecidableEq

/-- Reads what is attached to a short option without a value as further short options. -/
def clusterFrom (flag : Flag) : (attached : List Char) → Except UsageError Cluster
  | [] => .ok { plain := [flag] }
  | c :: rest =>
      match spellings.lookup ['-', c] with
      | none => .error (.valueUnwanted flag (c :: rest))
      | some next =>
          if next.hasValue then
            .ok { plain := [flag]
                  valued := some (next, if rest.isEmpty then none else some rest) }
          else
            match clusterFrom next rest with
            | .ok cluster => .ok { cluster with plain := flag :: cluster.plain }
            | .error error => .error error

/-- The options in one argument. -/
def cluster (flag : Flag) (short : Bool) (attached : Option (List Char)) :
    Except UsageError Cluster :=
  if flag.hasValue then
    .ok { valued := some (flag, attached) }
  else
    match attached with
    | none => .ok { plain := [flag] }
    | some value =>
        if short && !value.isEmpty then clusterFrom flag value
        else .error (.valueUnwanted flag value)

/-- Reads the options of one argument. -/
def Draft.options (draft : Draft) (found : Cluster) : Except Stop Draft :=
  let next : Draft :=
    { draft.close with
      verbose := draft.verbose || found.plain.contains .verbose
      helpWanted := found.plain.contains .help }
  match found.valued with
  | none => next.settle
  | some (flag, some value) => (next.setValue flag value).settle
  | some (flag, none) => .ok { next with waiting := some flag }

/-- Reads one argument. Help is given as soon as it has been asked for. -/
def Draft.read (draft : Draft) (piece : Piece) : Except Stop Draft :=
  match draft.waiting, piece with
  | some flag, .word value => (draft.setValue flag value).settle
  | some flag, _ => .error (.refused (.valueMissing flag))
  | none, .word text => .ok (draft.word text)
  | none, .dashes => .ok draft.dashes
  | none, .stranger text => .ok (draft.close.stranger text)
  | none, .option flag short attached =>
      match cluster flag short attached with
      | .ok found => draft.options found
      | .error error => .error (.refused error)

/-- What is asked for in the end. -/
def Draft.finish (draft : Draft) : Except UsageError Command :=
  match draft.waiting with
  | some flag => .error (.valueMissing flag)
  | none =>
      if draft.paths.isEmpty then .error .pathsMissing
      else if !draft.extras.isEmpty then .error (.unrecognized draft.extras)
      else
        .ok (.scan
          { paths := draft.paths.map Path.ofText
            rules := draft.rules.map Path.ofText
            output := draft.output.map Path.ofText
            verbose := draft.verbose })

/-- What sorted arguments ask for. -/
def readPieces (pieces : List Piece) : Except UsageError Command :=
  match pieces.foldlM Draft.read {} with
  | .ok draft => draft.finish
  | .error .help => .ok .help
  | .error (.refused error) => .error error

/-- What arguments ask for. -/
def parse (arguments : List (List Char)) : Except UsageError Command :=
  (sortAll arguments).bind readPieces

end NoticeScan.CommandLine
