import NoticeScan.Files.Path
import NoticeScan.Json.Lines
import NoticeScan.Scan.Findings
import NoticeScan.Verdict

/-!
# Reports on files

What scanning one file yields: a record, and remarks on how the scan went.
-/

namespace NoticeScan

/-- The report on a file. -/
structure FileReport where
  path : Path
  findings : List Finding
  party : Party
  allowed : Bool
  deriving Repr, DecidableEq

namespace FileReport

/-- The report on findings in a file. -/
def ofFindings (path : Path) (thirdPartyAllowed : Bool) (findings : List Finding) :
    FileReport where
  path := path
  findings := findings
  party := Verdict.party findings
  allowed := Verdict.allows findings thirdPartyAllowed

/-- The report as a record. -/
def record (report : FileReport) : Json :=
  .object
    [ ("name", .string (String.ofList report.path.text)),
      ("party_type", .string report.party.title),
      ("allowed", .bool report.allowed),
      ("matches", .array (report.findings.map Finding.record)) ]

/-- The report as a line. -/
def line (report : FileReport) : List Char :=
  report.record.line

end FileReport

/-! ## Remarks -/

/-- The remark of a reader that has given up on its source. -/
def Reader.remarks (reader : Reader) : List String :=
  match reader.gaveUp with
  | some (strays, lines) =>
      [reader.name ++ ": " ++ toString strays ++ " substituted bytes in " ++ toString lines ++
        " lines; treating rest as binary"]
  | none => []

/-- The remarks on a scan of a text of some name. -/
def Scanner.Report.remarks (report : Scanner.Report) (name : String) : List String :=
  let stops :=
    match report.earlyStop with
    | some stop =>
        [name ++ ": stopping after " ++ toString stop.known ++ " known matches at offset " ++
          toString stop.offset]
    | none => []
  stops ++ [name ++ ": " ++ toString report.findings.length ++ " matches"]

/-- The remark on a scanner that is ready. -/
def Scanner.remark (scanner : Scanner) : String :=
  "compiled scanner " ++ String.ofList (scanner.rules.signature.toList.take 12) ++ ": " ++
    toString scanner.composite.groupCount ++ " groups, " ++
    toString scanner.expression.length ++ " characters"

end NoticeScan
