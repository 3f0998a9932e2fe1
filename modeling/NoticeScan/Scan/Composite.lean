import NoticeScan.Pattern.Compiled
import NoticeScan.Scan.Slot

/-!
# The composite expression

One expression that finds everything a scan looks for: known licences, licences under which
something is distributed, labels of licences, authors, copyright notices and contract words. The
group in which a match ends up tells what has been found.
-/

namespace NoticeScan.Scan

open NoticeScan.Pattern

/-- An expression in the group of a slot. -/
def capture (slot : Slot) (number : Nat) (e : Expr) : Expr :=
  "(?P<".toList ++ slot.title.toList ++ '_' :: (toString number).toList ++ '>' :: e ++ [')']

/-- An expression that may be left out. -/
def optional (e : Expr) : Expr :=
  group e ++ ['?']

/-- The inline forms of the patterns that the composite expression is made of. -/
structure Ingredients where
  limits : Limits
  licenses : List Expr
  owners : List Expr
  words : List Expr

namespace Ingredients

/-- Blanks that may be missing. -/
def blanks0 (parts : Ingredients) : Expr :=
  times blank 0 parts.limits.spaceLength

/-- At least one blank. -/
def blanks1 (parts : Ingredients) : Expr :=
  times blank 1 parts.limits.spaceLength

/-- At least one blank or punctuation mark. -/
def marks1 (parts : Ingredients) : Expr :=
  times blankOrMark 1 parts.limits.spaceLength

/-- An owner: a known one, or several names. -/
def owner (parts : Ingredients) (slot : Slot) (number : Nat) : Expr :=
  let token := name parts.limits
  let names :=
    token ++ times (group (parts.blanks1 ++ token)) 0 parts.limits.nameRepetition
  optional ("by".toList ++ parts.blanks1) ++ optional ("the".toList ++ parts.blanks1) ++
    capture slot number (oneOf (parts.owners ++ [names]))

/-- "is distributed under the … license" -/
def genericLicense (parts : Ingredients) : Expr :=
  let ws := parts.blanks1
  let names :=
    times (group (name parts.limits ++ ws)) 2 parts.limits.nameRepetition ++
      "?licen[cs]e".toList
  group
    ("is".toList ++ ws ++ "(?:distributed|provided)".toList ++ ws ++ "under".toList ++
      optional (ws ++ "(?:the|this)".toList) ++ ws ++ capture .genericLicense 1 names ++
      times "[,.;]".toList 0 3 ++ "(?![:])".toList)

/-- "license: …" on one line. -/
def licenseLabel (parts : Ingredients) : Expr :=
  let space := times "\\s".toList 1 parts.limits.spaceLength
  let token := name parts.limits
  let names := token ++ times (group (space ++ token)) 0 parts.limits.nameRepetition
  "(?-ms:licen[cs]e:".toList ++ space ++ capture .licenseLabel 1 names ++ "\\n)".toList

/-- "author: …" and "the author of this software is …" -/
def author (parts : Ingredients) : Expr :=
  let ws := parts.blanks1
  let phrase :=
    "the".toList ++ ws ++ "author".toList ++ ws ++ "of".toList ++ ws ++ "this".toList ++ ws ++
      "software".toList ++ ws ++ "is".toList
  let label := optional ("principal".toList ++ ws) ++ "author:?".toList
  "\\b".toList ++ group (oneOf [phrase, label]) ++ ws ++ parts.owner .author 1

/-- The mark of a copyright. -/
def copyrightMark : Expr :=
  "(?:[(]c[)]|&copy;|©)".toList

/-- Years, with punctuation between them. -/
def years (parts : Ingredients) : Expr :=
  let year := times "\\d".toList 2 4
  let more := group (parts.marks1 ++ optional ("and".toList ++ parts.marks1) ++ year)
  year ++ times more 0 parts.limits.dateRepetition ++
    optional (parts.marks1 ++ "(?:present|now)".toList)

/-- Years and an owner in either order. The owner behind the years has the given number. -/
def datedOwner (parts : Ingredients) (number : Nat) : Expr :=
  group <| oneOf
    [ parts.years ++ parts.marks1 ++ parts.owner .copyrightOwner number,
      parts.owner .copyrightOwner (number + 1) ++ parts.blanks1 ++ parts.years ]

/-- A copyright notice with up to five more behind it. -/
def copyright (parts : Ingredients) : Expr :=
  let ws0 := parts.blanks0
  let ws1 := parts.blanks1
  let marked := optional (ws0 ++ copyrightMark)
  let side := "copy(?:right|left)".toList
  let leading :=
    optional (ws0 ++ copyrightMark ++ ws0) ++
      group (oneOf [side ++ optional (ws1 ++ "notice".toList) ++ marked, copyrightMark]) ++
      ws1 ++ parts.datedOwner 1
  let repeated :=
    "(?:portions)?".toList ++ ws0 ++ copyrightMark ++ '?' :: ws1 ++ side ++ marked ++ ws1 ++
      parts.datedOwner 3
  leading ++ times (group repeated) 0 5

/-- Contract words, one after the other. -/
def contract (parts : Ingredients) : Expr :=
  let words := group (oneOf parts.words)
  group (oneOf ["\\b".toList, openQuote]) ++ words ++
    times (group (blank ++ words)) 0 parts.limits.nameRepetition ++
    group (oneOf ["\\b".toList, anyOf (",.;:".toList ++ closeQuoteMembers)])

/-- Everything that a scan looks for, what is more definite first. -/
def alternatives (parts : Ingredients) : List Expr :=
  let known :=
    if parts.licenses.isEmpty then [] else [capture .knownLicense 1 (oneOf parts.licenses)]
  known ++
    [ parts.genericLicense, parts.licenseLabel, parts.author, parts.copyright,
      parts.contract ]

/-- The text of the composite expression. -/
def composite (parts : Ingredients) : Expr :=
  oneOf (parts.alternatives.map group)

end Ingredients

end NoticeScan.Scan
