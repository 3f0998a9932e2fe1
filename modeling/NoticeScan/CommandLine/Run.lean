import NoticeScan.CommandLine.Arguments
import NoticeScan.CommandLine.FileReport
import NoticeScan.CommandLine.Host
import NoticeScan.CommandLine.Usage
import NoticeScan.Config

/-!
# Running the program

The rules are read, a scanner is built, and the files are scanned one by one. Each report is
written when it is found, or all of them at the end into a file. A file that cannot be read counts
as one that is not allowed.
-/

namespace NoticeScan.CommandLine

/-- A failure that the program does not answer for. -/
inductive Breakdown where
  /-- The rules file holds no JSON. -/
  | notJson
  /-- A pattern fails in another way than by a fault in its text. -/
  | regex (error : Regex.Error)
  | build (error : BuildError)
  | scan (error : ScanError)
  /-- The reports cannot be written. -/
  | save (error : Files.Error)
  deriving Repr, DecidableEq

/-- The wording of a failure. -/
def Breakdown.message : Breakdown → String
  | .notJson => "the rules file holds no JSON"
  | .regex error => error.message
  | .build error => error.message
  | .scan error => error.message
  | .save error => error.wording

/-- How a run ends. -/
inductive Ending where
  | exit (code : Nat)
  | breakdown (cause : Breakdown)
  deriving Repr, DecidableEq

/-! ## Notes -/

/-- How much a note matters. -/
inductive Level where
  | debug
  | info
  | error
  deriving Repr, DecidableEq

/-- The name of a level. -/
def Level.title : Level → String
  | .debug => "DEBUG"
  | .info => "INFO"
  | .error => "ERROR"

/-- A note of a level. -/
def Level.note (level : Level) (message : String) : String :=
  "[" ++ level.title ++ "] " ++ message

section

variable {m : Type → Type} [Monad m]

/-- Writes notes one by one. -/
def noteAll (host : Host m) (level : Level) : List String → m Unit
  | [] => pure ()
  | message :: rest => do
      host.note (level.note message)
      noteAll host level rest

/-- Writes remarks, if they are wanted. -/
def remark (host : Host m) (request : Request) (remarks : List String) : m Unit :=
  if request.verbose then noteAll host .debug remarks else pure ()

/-! ## Rules -/

/-- What reading a rules file comes to: a configuration, or the end of the run with a note on the
reason. -/
def configOf (path : Path) (content : Except Files.Error (List UInt8)) :
    Except (Ending × Option String) Config :=
  match content with
  | .error error =>
      .error (.exit 2, some ("Error: cannot read rules file: " ++ error.message path))
  | .ok bytes =>
      match Config.ofBytes bytes with
      | .ok config => .ok config
      | .error (.issues list) => .error (.exit 2, some ("Error: " ++ Config.issuesMessage list))
      | .error .notJson => .error (.breakdown .notJson, none)
      | .error (.regex error) => .error (.breakdown (.regex error), none)

/-- The configuration that is asked for; the empty one if there is no rules file. -/
def loadConfig (host : Host m) (rules : Option Path) :
    m (Except (Ending × Option String) Config) :=
  match rules with
  | none => pure (.ok {})
  | some path => do
      let content ← host.read path
      pure (configOf path content)

/-- The scanner of a configuration, or the end of the run with a note on the reason. -/
def scannerOf (config : Config) : Except (Ending × Option String) Scanner :=
  match Scanner.ofRules config.rules with
  | .ok scanner => .ok scanner
  | .error (.pattern (.rejected rejection)) =>
      .error (.exit 2, some ("Error: " ++ rejection.message))
  | .error error => .error (.breakdown (.build error), none)

/-! ## Files -/

/-- What stays the same while the files are scanned. -/
structure Session where
  request : Request
  scanner : Scanner
  thirdPartyAllowed : Bool

/-- What has been done so far. -/
structure Progress where
  /-- The number of files that are not allowed. -/
  rejected : Nat := 0
  /-- The reports that are kept until the end, the last one first. -/
  kept : List FileReport := []
  deriving Repr, DecidableEq

/-- Counts a file that is not allowed. -/
def Progress.reject (progress : Progress) : Progress :=
  { progress with rejected := progress.rejected + 1 }

/-- Counts the verdict on a file. -/
def Progress.count (progress : Progress) (report : FileReport) : Progress :=
  if report.allowed then progress else progress.reject

/-- Keeps a report until the end. -/
def Progress.keep (progress : Progress) (report : FileReport) : Progress :=
  { progress with kept := report :: progress.kept }

/-- The report on the bytes of a file, with remarks. -/
def reportOn (session : Session) (path : Path) (bytes : List UInt8) :
    Except ScanError FileReport × List String :=
  let name := String.ofList path.text
  match session.scanner.scanBytes name bytes with
  | (.ok report, reader) =>
      (.ok (.ofFindings path session.thirdPartyAllowed report.findings),
        reader.remarks ++ report.remarks name)
  | (.error error, reader) => (.error error, reader.remarks)

/-- Hands out a report, or keeps it. -/
def deliver (host : Host m) (request : Request) (report : FileReport) (progress : Progress) :
    m Progress :=
  match request.output with
  | none => do
      host.print report.line
      pure (progress.count report)
  | some _ => pure ((progress.count report).keep report)

/-- Scans one file. -/
def scanPath (host : Host m) (session : Session) (path : Path) (progress : Progress) :
    m (Except Breakdown Progress) := do
  let content ← host.read path
  match content with
  | .error error =>
      host.note (Level.note .error
        ("Cannot scan " ++ String.ofList path.text ++ ": " ++ error.message path))
      pure (.ok progress.reject)
  | .ok bytes =>
      let (result, remarks) := reportOn session path bytes
      remark host session.request remarks
      match result with
      | .error error => pure (.error (.scan error))
      | .ok report => do
          let next ← deliver host session.request report progress
          pure (.ok next)

/-- Scans files one by one. -/
def scanPaths (host : Host m) (session : Session) :
    List Path → Progress → m (Except Breakdown Progress)
  | [], progress => pure (.ok progress)
  | path :: rest, progress => do
      let result ← scanPath host session path progress
      match result with
      | .ok next => scanPaths host session rest next
      | .error cause => pure (.error cause)

/-! ## The end -/

/-- Writes the number of files, and ends the run. -/
def conclude (host : Host m) (request : Request) (progress : Progress) : m Ending := do
  host.note (Level.note .info
    ("Scanned " ++ toString request.paths.length ++ " files, " ++ toString progress.rejected ++
      " not allowed"))
  pure (.exit (if progress.rejected = 0 then 0 else 1))

/-- The bytes of the reports that have been kept. -/
def Progress.bytes (progress : Progress) : List UInt8 :=
  Text.Utf8.encode (progress.kept.reverse.flatMap FileReport.line)

/-- Writes the reports that have been kept, if they are to be written into a file. -/
def deliverKept (host : Host m) (request : Request) (progress : Progress) : m Ending :=
  match request.output with
  | none => conclude host request progress
  | some path => do
      let result ← host.save path progress.bytes
      match result with
      | .error error => pure (.breakdown (.save error))
      | .ok () => do
          host.note (Level.note .info
            ("Wrote " ++ toString progress.kept.length ++ " records to " ++
              String.ofList path.text))
          conclude host request progress

/-- Ends a run early, with a note if there is one. -/
def stop (host : Host m) (ending : Ending) (note : Option String) : m Ending :=
  match note with
  | none => pure ending
  | some text => do
      host.note text
      pure ending

/-- Scans all files that are asked for with a scanner. -/
def scanAll (host : Host m) (session : Session) : m Ending := do
  remark host session.request [session.scanner.remark]
  let result ← scanPaths host session session.request.paths {}
  match result with
  | .error cause => pure (.breakdown cause)
  | .ok progress => deliverKept host session.request progress

/-- Does what is asked for. -/
def serve (host : Host m) (request : Request) : m Ending := do
  let loaded ← loadConfig host request.rules
  match loaded with
  | .error (ending, note) => stop host ending note
  | .ok config =>
      match scannerOf config with
      | .error (ending, note) => stop host ending note
      | .ok scanner => scanAll host ⟨request, scanner, config.thirdPartyAllowed⟩

/-- Runs the program with some arguments. -/
def run (host : Host m) (arguments : List String) : m Ending :=
  match parse (arguments.map String.toList) with
  | .ok (.scan request) => serve host request
  | .ok .help => do
      host.print help.toList
      pure (.exit 0)
  | .error error => do
      host.note (usage ++ "notice-scan: error: " ++ error.message)
      pure (.exit 2)

end

end NoticeScan.CommandLine
