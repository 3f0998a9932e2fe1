import NoticeScan.Pattern.Vocabulary

/-!
# Contract words

Patterns for the vocabulary of legal texts. Where nothing more definite is found, these words
tell that a text may hold a licence.
-/

namespace NoticeScan.Scan

open NoticeScan.Pattern (upperChar lowerChar letter upperName properName)

/-- Several words that start with a capital. -/
def capitalizedWords : String :=
  "(?-i: " ++ String.ofList upperChar ++ String.ofList lowerChar ++ "\x7b0,30\x7d)\x7b2,5\x7d"

/-- A word of letters. -/
def plainWord : String :=
  String.ofList letter ++ "\x7b1,30\x7d"

/-- What may have been done by somebody. -/
def doneBy : String :=
  "(?:(?:required|return|allocated|allowed|contributed|copyrighted|generated" ++
    "|provided|raised|understandable|used|written) )?by:?"

/-- The name of an account. -/
def handle : String :=
  "[-\\w.]\x7b1,30\x7d"

/-- Up to five names of a kind before the name of a licence. -/
def publicLicense (name : Pattern.Expr) (title : String) : String :=
  "(?-i:(?:" ++ String.ofList name ++ " )\x7b0,5\x7d" ++ title ++ ")"

/-- The contract words, in alphabetical order. -/
def contractWords : List String :=
  [ "agree(?:s|d|ment)?",
    "amendments?",
    "applicable laws?",
    "any manner",
    "auth?or(?:s|ed|ship)?:?" ++ capitalizedWords,
    "breach",
    doneBy ++ " @" ++ handle,
    doneBy ++ " " ++ handle ++ "@" ++ handle,
    doneBy ++ capitalizedWords,
    "charge for",
    "constitut(?:e|es|ed|ing)",
    "contract(?:s|ed|ing|ual|ually)?",
    "contribut(?:e|es|or|ors|ion|ions)",
    "copyleft",
    plainWord ++ " copyright(?:able)? " ++ plainWord,
    "damages",
    "derivative",
    "disclaim(?:s|ed|er)?",
    "endorsements?",
    " [(]?EUPL[)]? ",
    "exemplary",
    "expressly",
    "fitness",
    "govern(?:s|ed|ing)?",
    "here(?:by|under)",
    "herein(?:after)?",
    "however caused",
    "incidental",
    "infring(?:e|es|ed|ing)",
    "injury",
    "jurisdictions?",
    "lawful",
    "liable",
    "liabilit(?:ies|y)",
    "(?:re)?licen[cs](?:e(?![:])|es|ed|ing|or)",
    "litigation",
    "merchantability",
    "must agree",
    "negligen(?:ce|t)",
    "no event",
    "no provision",
    "(?:non|un)enforce(?:s|d|able|ability)?",
    "nonexclusive",
    "notwithstanding",
    "obligations?",
    "otherwise agreed",
    "perpetu(?:al|ity)",
    "phonorecords?",
    "prior written",
    "provisions",
    "public domain",
    publicLicense (upperName {}) "PUBLIC LICEN[CS]E",
    publicLicense (properName {}) "Public Licen[cs]e",
    "punitive",
    "pursuant",
    "redistribut(?:e|ion)",
    "right to",
    "royalties",
    "set forth",
    " [(]?SISSL[)]? ",
    "SPDX-License-Identifier[:]?",
    "stoppage",
    "terms and conditions",
    "the laws of",
    "third party",
    "tort(?:s|ious)?",
    "trademark",
    "waive(?:s|d|r)?",
    "warrant(?:s|y|ee|ed|ing)?",
    "whatsoever" ]

end NoticeScan.Scan
