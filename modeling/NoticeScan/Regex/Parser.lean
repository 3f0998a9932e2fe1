import NoticeScan.Regex.ClassBody
import NoticeScan.Regex.InlineFlags
import NoticeScan.Regex.Item
import NoticeScan.Text.Identifier

/-!
# Reading an expression

The text is read token by token with a stack of the groups that are open. Every step takes at
least one token, so the number of characters bounds the number of steps.
-/

namespace NoticeScan.Regex

open NoticeScan.Text

/-- What kind of group an opening parenthesis has started. -/
inductive Opener where
  | whole
  | plain
  | flagged
  | capture (index : Nat)
  | atomic
  /-- A condition on what is ahead or behind; `outermost` when it stands in no condition on what
  is behind. -/
  | look (behind negated outermost : Bool)
  /-- A choice by whether a group has captured something. -/
  | branch (index : Nat)
  deriving Repr, DecidableEq

/-- A group that is open: where it starts, its finished branches and the entries of the branch
being read, the last one first. -/
structure Level where
  opener : Opener
  start : Nat
  flags : Flags
  branches : List (List Item) := []
  entries : List Entry := []
  deriving Repr, DecidableEq

/-- The capturing groups met so far. `widths` has an entry for the whole expression and one for
each group, which is filled when the group closes. -/
structure Groups where
  widths : Array (Option Width) := #[none]
  names : List (List Char × Nat) := []
  deriving Repr, DecidableEq

/-- Whether a group exists and is closed. -/
def Groups.closed (groups : Groups) (index : Nat) : Bool :=
  (groups.widths.getD index none).isSome

/-- The state of reading an expression. -/
structure Reading where
  input : Input
  level : Level
  outer : List Level := []
  groups : Groups := {}
  /-- The number of groups before the outermost condition on what is behind. -/
  lookbehindFrom : Option Nat := none
  /-- The groups named by number in choices, each with the place of its first mention. -/
  mentioned : List (Nat × Nat) := []
  /-- Flags set for the whole expression. -/
  everywhere : List InlineFlag := []
  deriving Repr, DecidableEq

namespace Reading

/-- The flags in force. -/
def flags (reading : Reading) : Flags :=
  reading.level.flags

/-- Adds an entry to the branch being read and goes on at an input. -/
def add (reading : Reading) (input : Input) (entry : Entry) : Reading :=
  { reading with
    input := input
    level := { reading.level with entries := entry :: reading.level.entries } }

/-- Adds an item to the branch being read and goes on at an input. -/
def push (reading : Reading) (input : Input) (item : Item) : Reading :=
  reading.add input (.single item)

/-- Opens a group. -/
def enter (reading : Reading) (input : Input) (opener : Opener) (start : Nat) (flags : Flags) :
    Reading :=
  { reading with
    input := input
    level := { opener := opener, start := start, flags := flags }
    outer := reading.level :: reading.outer }

/-- The items of the branch being read, in order. -/
def sequence (level : Level) : List Item :=
  level.entries.reverse.flatMap Entry.items

/-- The branches of a group, in order. -/
def branches (level : Level) : List (List Item) :=
  (sequence level :: level.branches).reverse

/-! ## References to groups -/

/-- Refuses a reference to a group that is still open inside the outermost condition on what is
behind, or defined in it. -/
def checkLookbehind (reading : Reading) (index pos : Nat) : Except Error Unit :=
  match reading.lookbehindFrom with
  | none => .ok ()
  | some first =>
      if !reading.groups.closed index then
        Fault.openGroup.at pos
      else if first ≤ index then
        Fault.groupOfSameLookbehind.at pos
      else
        .ok ()

/-- Adds what a group has captured. -/
def pushAgain (reading : Reading) (input : Input) (index : Nat) : Except Error Reading := do
  reading.checkLookbehind index input.pos
  let width := (reading.groups.widths.getD index none).getD ⟨0, 0⟩
  .ok (reading.push input (.again reading.flags index width))

/-- A reference by a number that is `width` characters long. -/
def pushNumbered (reading : Reading) (input : Input) (index width : Nat) :
    Except Error Reading :=
  if reading.groups.widths.size ≤ index then
    (Fault.unknownGroup index).at (input.pos - width)
  else if !reading.groups.closed index then
    Fault.openGroup.at (input.pos - (width + 1))
  else
    reading.pushAgain input index

/-! ## Single items -/

/-- The anchor of an escape. -/
def escapedAnchor (flags : Flags) (c : Char) : Anchor :=
  if c == 'A' then .textStart
  else if c == 'Z' then .textEnd
  else if c == 'b' then .wordEdge flags.ascii
  else .noWordEdge flags.ascii

/-- Adds what an escape stands for. -/
def readEscape (reading : Reading) (c : Char) (input : Input) : Except Error Reading := do
  match ← outerEscape c input with
  | (.point x, behind) => .ok (reading.push behind (.ofPoint reading.flags false x))
  | (.category kind negated, behind) =>
      .ok (reading.push behind (.ofMembers reading.flags false [.category kind negated]))
  | (.anchor letter, behind) =>
      .ok (reading.push behind (.ofAnchor letter (escapedAnchor reading.flags letter)))
  | (.group index, behind) =>
      reading.pushNumbered behind index (behind.pos - input.pos + 1)

/-- Adds a character class, the bracket of which has just been read. -/
def readClass (reading : Reading) (input : Input) : Except Error Reading := do
  let (negated, members, behind) ← classBody input
  .ok (reading.push behind (.ofClass reading.flags negated members))

/-! ## Repeats -/

/-- The bounds of a repeat. -/
structure Bounds where
  low : Nat
  high : Nat
  deriving Repr, DecidableEq

/-- Bounds in braces, the first of which has just been read. Anything that does not have their
form is no repeat. -/
def bracedBounds (input : Input) : Except Error (Option (Bounds × Input)) := do
  let bound := input.rest.length
  let (low, afterLow) ← input.takeWhile isDecimal bound
  let (high, afterHigh) ←
    match ← afterLow.take? ',' with
    | some comma => comma.takeWhile isDecimal bound
    | none => .ok (low, afterLow)
  match ← afterHigh.take? '\x7d' with
  | none => .ok none
  | some behind =>
      let bounds : Bounds :=
        { low := ← boundOf low
          high := ← if high.isEmpty then .ok endless else boundOf high }
      if bounds.high < bounds.low then Fault.bounds.at input.pos
      else .ok (some (bounds, behind))

/-- How a repeat is tried, by the character behind its bounds. -/
def readGreed (input : Input) : Except Error (Greed × Input) := do
  match ← input.take? '?' with
  | some behind => .ok (.lazy, behind)
  | none =>
      match ← input.take? '+' with
      | some behind => .ok (.possessive, behind)
      | none => .ok (.greedy, input)

/-- Repeats the item before. `mark` is where the repeat is written. -/
def repeatLast (reading : Reading) (bounds : Bounds) (mark : Nat) (input : Input) :
    Except Error Reading := do
  match reading.level.entries with
  | [] => Fault.nothingToRepeat.at mark
  | entry :: before =>
      let body ← entry.repeatable mark
      let (greed, behind) ← readGreed input
      let repeated := Item.repeating reading.flags greed bounds.low bounds.high body
      .ok
        { reading with
          input := behind
          level := { reading.level with entries := .single repeated :: before } }

/-- Whether the next character closes a brace that has just been opened. -/
def closesAtOnce (input : Input) : Bool :=
  input.peek? = some (.plain '\x7d')

/-- Handles a character that may repeat the item before. -/
def readRepeat (reading : Reading) (c : Char) (input : Input) : Except Error Reading := do
  let mark := input.pos - 1
  let literal := reading.push input (.ofPoint reading.flags false c.toNat)
  if c == '?' then
    reading.repeatLast ⟨0, 1⟩ mark input
  else if c == '*' then
    reading.repeatLast ⟨0, endless⟩ mark input
  else if c == '+' then
    reading.repeatLast ⟨1, endless⟩ mark input
  else if closesAtOnce input then
    .ok literal
  else
    match ← bracedBounds input with
    | some (bounds, behind) => reading.repeatLast bounds mark behind
    | none => .ok literal

/-! ## Groups -/

/-- Opens a capturing group. -/
def enterCapture (reading : Reading) (input : Input) (start : Nat) (name : Option (List Char)) :
    Except Error Reading :=
  let index := reading.groups.widths.size
  let opened : Groups := { reading.groups with widths := reading.groups.widths.push none }
  match name with
  | none =>
      .ok ({ reading with groups := opened }.enter input (.capture index) start reading.flags)
  | some name =>
      match reading.groups.names.lookup name with
      | some taken => (Fault.nameTaken name index taken).at (input.pos - (name.length + 1))
      | none =>
          let named : Groups := { opened with names := reading.groups.names ++ [(name, index)] }
          .ok ({ reading with groups := named }.enter input (.capture index) start reading.flags)

/-- A name up to a closing character. -/
def readName (input : Input) (closing : Char) : Except Error (List Char × Input) := do
  let (name, behind) ← input.takeUntil closing "group name"
  if isName name then .ok (name, behind)
  else (Fault.badNameCharacter name).at (behind.pos - (name.length + 1))

/-- Adds what a named group has captured. -/
def readNamedAgain (reading : Reading) (input : Input) : Except Error Reading := do
  let (name, behind) ← readName input ')'
  let place := behind.pos - (name.length + 1)
  match reading.groups.names.lookup name with
  | none => (Fault.unknownGroupName name).at place
  | some index =>
      if !reading.groups.closed index then Fault.openGroup.at place
      else reading.pushAgain behind index

/-- The groups with a name: `(?P<name>…)` captures, `(?P=name)` is what has been captured. -/
def readNamed (reading : Reading) (start : Nat) (input : Input) : Except Error Reading := do
  match ← input.next? with
  | none => Fault.unexpectedEnd.at input.pos
  | some (.plain '<', behind) =>
      let (name, inside) ← readName behind '>'
      reading.enterCapture inside start (some name)
  | some (.plain '=', behind) => reading.readNamedAgain behind
  | some (token, behind) =>
      (Fault.unknownExtension ('P' :: token.text)).at (behind.pos - (token.width + 2))

/-- Opens a condition on what is ahead or behind. -/
def enterLook (reading : Reading) (input : Input) (start : Nat) (behind negated : Bool) :
    Reading :=
  let outermost := reading.lookbehindFrom.isNone
  let from? :=
    if behind && outermost then some reading.groups.widths.size else reading.lookbehindFrom
  { reading with lookbehindFrom := from? }.enter input
    (.look behind negated outermost) start reading.flags

/-- The conditions on what is behind. -/
def readBehind (reading : Reading) (start : Nat) (input : Input) : Except Error Reading := do
  match ← input.next? with
  | none => Fault.unexpectedEnd.at input.pos
  | some (.plain '=', behind) => .ok (reading.enterLook behind start true false)
  | some (.plain '!', behind) => .ok (reading.enterLook behind start true true)
  | some (token, behind) =>
      (Fault.unknownExtension ('<' :: token.text)).at (behind.pos - (token.width + 2))

/-- The group that a choice asks for, and the places of the numbers mentioned so far. -/
def branchIndex (reading : Reading) (name : List Char) (place : Nat) :
    Except Error (Nat × List (Nat × Nat)) :=
  if isName name then
    match reading.groups.names.lookup name with
    | some index => .ok (index, reading.mentioned)
    | none => (Fault.unknownGroupName name).at place
  else
    match groupNumber? name with
    | none => (Fault.badNameCharacter name).at place
    | some 0 => Fault.groupZero.at place
    | some index =>
        if groupLimit ≤ index then
          (Fault.unknownGroup index).at place
        else if (reading.mentioned.lookup index).isSome then
          .ok (index, reading.mentioned)
        else
          .ok (index, reading.mentioned ++ [(index, place)])

/-- Opens a choice by a group. -/
def readBranch (reading : Reading) (start : Nat) (input : Input) : Except Error Reading := do
  let (name, behind) ← input.takeUntil ')' "group name"
  let place := behind.pos - (name.length + 1)
  let (index, mentioned) ← reading.branchIndex name place
  reading.checkLookbehind index behind.pos
  .ok ({ reading with mentioned := mentioned }.enter behind (.branch index) start reading.flags)

/-- Reads a list of flags, the first character of which has just been read. Flags for the whole
expression stand before everything else. -/
def readFlags (reading : Reading) (first : Char) (start : Nat) (input : Input) :
    Except Error Reading := do
  match ← flagList first input with
  | (.everywhere on, behind) =>
      let level := reading.level
      if level.opener = .whole && level.branches.isEmpty && level.entries.isEmpty then
        .ok
          { reading with
            input := behind
            level := { level with flags := level.flags.change on [] }
            everywhere := on ++ reading.everywhere }
      else
        Fault.flagsNotAtStart.at start
  | (.scoped on off, behind) =>
      .ok (reading.enter behind .flagged start (reading.flags.change on off))

/-- Handles what stands between `(?` and the body of a group. -/
def readExtension (reading : Reading) (start : Nat) (input : Input) : Except Error Reading := do
  match ← input.next? with
  | none => Fault.unexpectedEnd.at input.pos
  | some (token, behind) =>
      match token with
      | .plain 'P' => reading.readNamed start behind
      | .plain ':' => .ok (reading.enter behind .plain start reading.flags)
      | .plain '>' => .ok (reading.enter behind .atomic start reading.flags)
      | .plain '=' => .ok (reading.enterLook behind start false false)
      | .plain '!' => .ok (reading.enterLook behind start false true)
      | .plain '<' => reading.readBehind start behind
      | .plain '(' => reading.readBranch start behind
      | .plain '#' =>
          match ← behind.skipPast ')' (behind.rest.length + 1) with
          | some last => .ok { reading with input := last }
          | none => Fault.unterminatedComment.at start
      | .plain c =>
          if c == '-' || (InlineFlag.ofLetter? c).isSome then
            reading.readFlags c start behind
          else
            (Fault.unknownExtension token.text).at (behind.pos - (token.width + 1))
      | .escaped _ =>
          (Fault.unknownExtension token.text).at (behind.pos - (token.width + 1))

/-- Handles an opening parenthesis. -/
def readOpening (reading : Reading) (input : Input) : Except Error Reading := do
  let start := input.pos - 1
  match ← input.take? '?' with
  | some behind => reading.readExtension start behind
  | none => reading.enterCapture input start none

/-- The entry that a closed group is. -/
def closedEntry (level : Level) : Entry :=
  let sequences := branches level
  let items := alternatives level.flags sequences
  match level.opener with
  | .plain => .bundle items
  | .flagged | .whole => .single (.scoped items)
  | .capture index => .single (.captured index items)
  | .atomic => .single (.atomic items)
  | .look behind negated _ =>
      .single (if negated && items.isEmpty then .never else .looking behind negated (.ofItems items))
  | .branch index => .single (.branching index (sequences.headD []) (sequences.tail.headD []))

/-- Closes the innermost group, with the input behind its parenthesis. -/
def closeGroup (reading : Reading) (input : Input) (level : Level) (outer : List Level) :
    Reading :=
  let entry := closedEntry reading.level
  let groups :=
    match reading.level.opener with
    | .capture index =>
        { reading.groups with
          widths :=
            reading.groups.widths.setIfInBounds index (some (Part.ofItems entry.items).width) }
    | _ => reading.groups
  let lookbehindFrom :=
    match reading.level.opener with
    | .look true _ true => none
    | _ => reading.lookbehindFrom
  { reading with
      level := level, outer := outer, groups := groups, lookbehindFrom := lookbehindFrom
  }.add input entry

/-- Starts the next branch of the group being read. -/
def nextBranch (reading : Reading) (input : Input) : Reading :=
  let level := reading.level
  { reading with
    input := input
    level := { level with branches := sequence level :: level.branches, entries := [] } }

/-- Handles a bar. A choice by a group has two branches. -/
def readBar (reading : Reading) (mark : Nat) (input : Input) : Except Error Reading :=
  match reading.level.opener with
  | .branch _ =>
      if reading.level.branches.isEmpty then .ok (reading.nextBranch input)
      else Fault.thirdBranch.at mark
  | _ => .ok (reading.nextBranch input)

/-- Refuses an expression that asks for the small and for the full classes. -/
def checkClasses (reading : Reading) : Except Error Unit :=
  if reading.everywhere.contains .ascii && reading.everywhere.contains .unicode then
    .error .clashingClasses
  else
    .ok ()

/-- Handles a closing parenthesis. -/
def readClosing (reading : Reading) (mark : Nat) (input : Input) : Except Error Reading :=
  match reading.outer with
  | level :: outer => .ok (reading.closeGroup input level outer)
  | [] => do
      reading.checkClasses
      Fault.unbalanced.at mark

/-! ## The whole expression -/

/-- Whether a character is skipped between the items of a verbose expression. -/
def isLayout (c : Char) : Bool :=
  c == ' ' || c == '\t' || c == '\n' || c == '\r' || c == '\x0b' || c == '\x0c'

/-- Handles one character that is no escape. -/
def readPlain (reading : Reading) (c : Char) (input : Input) : Except Error Reading :=
  let flags := reading.flags
  match c with
  | '(' => reading.readOpening input
  | '[' => reading.readClass input
  | '.' => .ok (reading.push input (.dot flags))
  | '^' =>
      let anchor : Anchor := if flags.multiLine then .lineStart else .textStart
      .ok (reading.push input (.ofAnchor c anchor))
  | '$' =>
      let anchor : Anchor := if flags.multiLine then .lineEnd else .lastLineEnd
      .ok (reading.push input (.ofAnchor c anchor))
  | _ =>
      if c == '*' || c == '+' || c == '?' || c == '\x7b' then
        reading.readRepeat c input
      else
        .ok (reading.push input (.ofPoint flags false c.toNat))

/-- Skips a comment of a verbose expression, up to the end of its line. -/
def skipComment (reading : Reading) (input : Input) : Except Error Reading := do
  match ← input.skipPast '\n' (input.rest.length + 1) with
  | some behind => .ok { reading with input := behind }
  | none => .ok { reading with input := ⟨[], input.pos + input.rest.length⟩ }

/-- Handles one token, with the input behind it. Bars and closing parentheses are looked at
before they are taken. -/
def step (reading : Reading) (token : Token) : Except Error Reading := do
  let mark := reading.input.pos
  if token = .plain ')' && reading.outer.isEmpty then
    reading.readClosing mark reading.input
  else if token = .plain '|' && reading.level.opener matches .branch _ &&
      !reading.level.branches.isEmpty then
    reading.readBar mark reading.input
  else
    let input ← reading.input.drop token.width
    match token with
    | .plain ')' => reading.readClosing mark input
    | .plain '|' => reading.readBar mark input
    | .escaped c => reading.readEscape c input
    | .plain c =>
        if reading.flags.verbose && isLayout c then
          .ok { reading with input := input }
        else if reading.flags.verbose && c == '#' then
          reading.skipComment input
        else
          reading.readPlain c input

/-- Reads on until the input ends, in at most the given number of steps. -/
def run : Nat → Reading → Except Error Reading
  | 0, reading => .ok reading
  | steps + 1, reading =>
      match reading.input.peek? with
      | none => .ok reading
      | some token =>
          match reading.step token with
          | .ok next => run steps next
          | .error error => .error error

/-- Refuses the numbers of groups that do not exist. -/
def checkMentioned (reading : Reading) : Except Error Unit :=
  match reading.mentioned.find? fun mention => reading.groups.widths.size ≤ mention.1 with
  | some (index, place) => (Fault.unknownGroup index).at place
  | none => .ok ()

/-- The items of the whole expression, when everything has been read. -/
def finish (reading : Reading) : Except Error (List Item) :=
  match reading.outer with
  | _ :: _ => Fault.unterminatedGroup.at reading.level.start
  | [] => do
      reading.checkClasses
      reading.checkMentioned
      let items := alternatives reading.level.flags (branches reading.level)
      match (Part.ofItems items).late with
      | some fault => .error (.syntaxFault fault none)
      | none => .ok items

end Reading

end NoticeScan.Regex
