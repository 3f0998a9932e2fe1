import NoticeScan.Pattern.Vocabulary

/-!
# Rules

A rule bundles the patterns for one licence or owner. Its exclusions are regular expressions as
they stand; they drop findings in which its name only happens to be mentioned.
-/

namespace NoticeScan

/-- The patterns of one licence or owner. -/
structure Rule where
  owners : List String := []
  licenses : List String := []
  exclusions : List String := []
  deriving Repr, DecidableEq

namespace Catalogue

/-! ## Pieces that the patterns share -/

/-- An opening quotation mark. -/
def openQuote : String :=
  String.ofList Pattern.openQuote

/-- A closing quotation mark. -/
def closeQuote : String :=
  String.ofList Pattern.closeQuote

/-- A word of any kind. -/
def anyWord : String :=
  String.ofList (Pattern.anyWord {})

/-- The licence tag of a source file. -/
def spdx (identifier : String) : String :=
  ".*SPDX-License-Identifier: " ++ identifier

/-- The licence of a project description. -/
def nameTag (name : String) : String :=
  "<license> <name> ?" ++ name ++ " ?</name>.*"

/-- A mention of the mark of text that is no contribution, in the definition of an owner. -/
def notAContributionOwner : String :=
  "owner as " ++ openQuote ++ "?Not a Contribution[.,;:]\x7b0,3\x7d" ++ closeQuote ++ "?"

end Catalogue

end NoticeScan
