import NoticeScan.Pattern.Vocabulary
import NoticeScan.Regex.Search

/-!
# Normal texts

A text is made normal before it is compared with patterns: blanks and decorations become single
spaces, except in addresses, and the ends are trimmed. The name of an owner is cut where phrases
begin that often follow it.
-/

namespace NoticeScan.Scan

open NoticeScan.Text

/-- Whether a character is a blank or decorates a comment. -/
def isDecoration (c : Char) : Bool :=
  isBlank c || c == '*' || c == '/' || c == '#' || c == '·' || c == '§' || c == '\xad' || c == '¶'

/-- A text with every run of decorations made a space. `inRun` tells that the character before
was one. -/
def collapseFrom : (inRun : Bool) → List Char → List Char
  | _, [] => []
  | inRun, c :: rest =>
      if isDecoration c then
        if inRun then collapseFrom true rest else ' ' :: collapseFrom true rest
      else
        c :: collapseFrom false rest

/-- A text with every run of decorations made a space. -/
def collapse (s : List Char) : List Char :=
  collapseFrom false s

/-- Addresses on the web. -/
def address : Regex :=
  Regex.ofText { ignoreCase := true } (Pattern.url {})

/-- The characters between two positions. -/
def slice (text : Array Char) (start stop : Nat) : List Char :=
  (text.extract start stop).toList

/-- A text from a position on in which everything but some matches is collapsed. -/
def collapseBetween (text : Array Char) : Nat → List Regex.Found → List Char
  | pos, [] => collapse (slice text pos text.size)
  | pos, found :: rest =>
      collapse (slice text pos found.start) ++ slice text found.start found.stop ++
        collapseBetween text found.stop rest

/-- A text made normal. -/
def normalText (s : List Char) : List Char :=
  let text := s.toArray
  trim (collapseBetween text 0 (address.findAll text))

/-- Phrases that often follow the name of an owner. -/
def ownerTails : List String :=
  [ "all rights",
    "(?:the|this) [^ ]+(?: [^ ]+)\x7b0,2\x7d (?:is|assumes|may)",
    "permission", "copyright", "version \\d", "for conditions", "include ", "include$",
    "modification", "however", "open source license", "please (?:use|read)", "libname",
    "if defined", "usage", "this is free", "added", "generic", "redistribution", "ifdef",
    "ifndef", "for (?:more|terms)", "copying and", "you (?:may|can)", "released under",
    "see the", "full source", "freedom to use", "this program and", "distributed", "https?",
    "unit ?test", "import", "static", "by obtaining", "by using", "by copying", "example",
    "namespace", "config\\b", "public (?:static|final|class)", "package (?:org|com)",
    "[^ ]+ is hereby" ]

/-- The start of what follows the name of an owner. -/
def ownerTail : Regex :=
  Regex.ofText { ignoreCase := true }
    ("[ ]".toList ++ Pattern.group (Pattern.oneOf (ownerTails.map String.toList)))

/-- The name of an owner, without what follows it. -/
def normalOwner (s : List Char) : List Char :=
  match ownerTail.find? s.toArray with
  | some found => s.take found.start
  | none => s

end NoticeScan.Scan
