import NoticeScan.Json.Printer

/-!
# Lines of JSON

Records written one to a line. An integer that does not fit into 64 bits cannot be written.
-/

namespace NoticeScan.Json

/-- The line of a record, with the line feed at its end. -/
def line (record : Json) : List Char :=
  record.print ++ ['\n']

/-- The line of a record that can be written. -/
def line? (record : Json) : Option (List Char) :=
  if record.allFit then some record.line else none

/-- The lines of some records, if all of them can be written. -/
def lines? (records : List Json) : Option (List Char) :=
  (records.mapM line?).map List.flatten

/-- The wording of the complaint about a record that cannot be written. -/
def refusal : String :=
  "Integer exceeds 64-bit range"

end NoticeScan.Json
