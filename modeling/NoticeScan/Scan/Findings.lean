import NoticeScan.Reader.Basic
import NoticeScan.Scan.Fragments
import NoticeScan.Scan.Scanner

/-!
# Scanning a text

The matches of the composite expression are taken in order. Each group that has captured
something yields a finding. A match without one is a licence or an owner itself or a fragment of
contract words; fragments count only where no licence has been found. A scan stops when enough
is known.
-/

namespace NoticeScan

open NoticeScan.Scan NoticeScan.Scanner

/-- Why a scan fails. -/
inductive ScanError where
  | reader (failure : Reader.Failure)
  /-- A group without a slot has captured something. -/
  | noSlot (group : Nat)
  deriving Repr, DecidableEq

/-- The wording of an error. -/
def ScanError.message : ScanError → String
  | .reader failure => failure.message
  | .noSlot group => toString group

/-- What has been found so far. -/
structure Tally where
  /-- The findings, the last one first. -/
  findings : List Finding := []
  fragments : Fragments
  /-- How many findings of groups are licences. -/
  licenses : Nat := 0
  /-- How many findings have a known party. -/
  known : Nat := 0
  deriving Repr, DecidableEq

namespace Tally

/-- Adds what a group has captured. -/
def addCapture (tally : Tally) (finding : Finding) : Tally :=
  { tally with
    findings := finding :: tally.findings
    licenses := if finding.kind = .license then tally.licenses + 1 else tally.licenses
    known := if finding.party = .unknown then tally.known else tally.known + 1 }

/-- Adds a whole match of a known party. -/
def addWhole (tally : Tally) (finding : Finding) : Tally :=
  { tally with findings := finding :: tally.findings, known := tally.known + 1 }

/-- Adds a fragment. -/
def addFragment (tally : Tally) (fragment : Fragment) : Tally :=
  { tally with fragments := tally.fragments.add fragment }

/-- The findings in order. The fragments come last, and only if no group has found a licence. -/
def result (tally : Tally) : List Finding :=
  tally.findings.reverse ++ if tally.licenses = 0 then tally.fragments.findings else []

end Tally

/-- A text to be scanned, with the line of each of its characters. -/
structure Window where
  text : Array Char
  lineOf : Nat → Nat

namespace Scanner

/-- The start of a notice that something is not under copyright. -/
def negated : Regex :=
  Regex.ofText { ignoreCase := true } "no copyright(?:able)?".toList

/-- The finding for a stretch of a text. -/
def findingAt (window : Window) (party : Party) (kind : Kind) (text : List Char)
    (start stop : Nat) : Finding where
  party := party
  kind := kind
  text := text
  startLine := window.lineOf start
  endLine := window.lineOf stop
  start := start
  stop := stop

/-- Adds what one group has captured in a match, of which the whole text is given. -/
def countGroup (scanner : Scanner) (window : Window) (whole : List Char) (found : Regex.Found)
    (tally : Tally) (group : Nat) : Except ScanError Tally :=
  match found.group? group with
  | none => .ok tally
  | some (start, stop) =>
      let text := normalText (slice window.text start stop)
      if text.isEmpty || scanner.isExcluded text then
        .ok tally
      else
        match scanner.slot? group with
        | none => .error (.noSlot group)
        | some slot =>
            let (party, kind) := scanner.classify text slot
            .ok (tally.addCapture (findingAt window party kind whole start stop))

/-- Adds what all groups have captured in a match. -/
def countGroups (scanner : Scanner) (window : Window) (whole : List Char)
    (found : Regex.Found) (tally : Tally) : Except ScanError Tally :=
  (List.range' 1 scanner.composite.groupCount).foldlM
    (scanner.countGroup window whole found) tally

/-- The party and the kind of a whole match. -/
def classifyWhole? (scanner : Scanner) (whole : List Char) : Option (Party × Kind) :=
  match scanner.knownLicense? whole with
  | some party => some (party, .license)
  | none => (scanner.knownOwner? (normalOwner whole)).map fun party => (party, .owner)

/-- Adds a whole match in which no group has captured anything. The flag tells whether the match
counts towards the end of the scan. -/
def countWhole (scanner : Scanner) (window : Window) (whole : List Char)
    (found : Regex.Found) (tally : Tally) : Tally × Bool :=
  if negated.matchesStart whole.toArray || scanner.isExcluded whole then
    (tally, false)
  else
    match scanner.classifyWhole? whole with
    | some (party, kind) =>
        (tally.addWhole (findingAt window party kind whole found.start found.stop), true)
    | none =>
        let fragment : Fragment :=
          { text := whole
            startLine := window.lineOf found.start
            endLine := window.lineOf found.stop
            start := found.start
            stop := found.stop }
        (tally.addFragment fragment, false)

/-- Adds one match. A whole match is looked at only as long as no group has found a licence and
few fragments have been found. -/
def countMatch (scanner : Scanner) (window : Window) (found : Regex.Found) (tally : Tally) :
    Except ScanError (Tally × Bool) :=
  let whole := normalText (slice window.text found.start found.stop)
  match scanner.countGroups window whole found tally with
  | .error error => .error error
  | .ok counted =>
      if counted.findings.length = tally.findings.length && counted.licenses = 0 &&
          (counted.fragments.count : Int) ≤ scanner.threshold then
        .ok (scanner.countWhole window whole found counted)
      else
        .ok (counted, true)

/-- Where a scan has stopped because enough was known: how much that was, and the end of the last
match. -/
structure EarlyStop where
  known : Nat
  offset : Nat
  deriving Repr, DecidableEq

/-- Takes the matches of a search one by one, at most `bound` of them. -/
def countFrom (scanner : Scanner) (window : Window) :
    Nat → Regex.Search → Tally → Except ScanError (Tally × Option EarlyStop)
  | 0, _, tally => .ok (tally, none)
  | bound + 1, search, tally =>
      match scanner.composite.next? window.text search with
      | none => .ok (tally, none)
      | some (found, after) =>
          match scanner.countMatch window found tally with
          | .error error => .error error
          | .ok (counted, counts) =>
              if counts && scanner.threshold ≤ counted.known then
                .ok (counted, some ⟨counted.known, found.stop⟩)
              else
                countFrom scanner window bound after counted

/-- What a scan reports. -/
structure Report where
  findings : List Finding
  earlyStop : Option EarlyStop := none
  deriving Repr, DecidableEq

/-- Scans a window of a text. -/
def scanWindow (scanner : Scanner) (window : Window) : Except ScanError Report :=
  let tally : Tally := { fragments := { limit := scanner.threshold } }
  match scanner.countFrom window (Regex.matchBound window.text) {} tally with
  | .error error => .error error
  | .ok (final, earlyStop) => .ok { findings := final.result, earlyStop := earlyStop }

/-- The number of characters that are read for a scan which asks for a number of them. -/
def windowSize (scanner : Scanner) (size : Int) : Int :=
  if size < 1 || scanner.window < size then scanner.window else size

/-- Reads the next window and scans it. -/
def scanNext (scanner : Scanner) (reader : Reader) (size : Int) :
    Except ScanError Report × Reader :=
  match reader.read (scanner.windowSize size) with
  | (.error failure, next) => (.error (.reader failure), next)
  | (.ok text, next) =>
      (scanner.scanWindow { text := text, lineOf := fun offset => next.lineNumber offset },
        next)

/-- Scans bytes under a name. -/
def scanBytes (scanner : Scanner) (name : String) (bytes : List UInt8) :
    Except ScanError Report × Reader :=
  let reader : Reader :=
    { name := name
      source := .ofBytes bytes Source.blockSize
      sizeHint := bytes.length }
  let (result, after) := scanner.scanNext reader bytes.length
  (result, after.close)

end Scanner

end NoticeScan
