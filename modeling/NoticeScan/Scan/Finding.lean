import NoticeScan.Json.Value

/-!
# Findings

What a scan reports: a stretch of a text, what it is about and whose it is.
-/

namespace NoticeScan

/-- Whose a finding is. -/
inductive Party where
  | first
  | third
  | forbidden
  | unknown
  deriving Repr, DecidableEq

/-- The name of a party in records. -/
def Party.title : Party → String
  | .first => "FIRST_PARTY"
  | .third => "THIRD_PARTY"
  | .forbidden => "FORBIDDEN"
  | .unknown => "UNKNOWN"

/-- All parties. -/
def Party.all : List Party :=
  [.first, .third, .forbidden, .unknown]

/-- What a finding is about. -/
inductive Kind where
  | owner
  | license
  deriving Repr, DecidableEq

/-- The name of a kind in records. -/
def Kind.title : Kind → String
  | .owner => "AUTHOR_OWNER"
  | .license => "LICENSE"

/-- A finding. The offsets count characters of the text that was scanned; lines are counted from
one. -/
structure Finding where
  party : Party
  kind : Kind
  text : List Char
  startLine : Nat
  endLine : Nat
  start : Nat
  stop : Nat
  deriving Repr, DecidableEq

/-- A finding as a record. -/
def Finding.record (finding : Finding) : Json :=
  .object
    [ ("party_type", .string finding.party.title),
      ("match_type", .string finding.kind.title),
      ("text", .string (String.ofList finding.text)),
      ("start_line", .int finding.startLine),
      ("end_line", .int finding.endLine),
      ("start", .int finding.start),
      ("end", .int finding.stop) ]

end NoticeScan
