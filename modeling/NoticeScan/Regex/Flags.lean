/-!
# Flags of a regular expression
-/

namespace NoticeScan.Regex

/-- How an expression, or the part of it inside a group, is read and compared. -/
structure Flags where
  /-- Letters are compared without regard to case. -/
  ignoreCase : Bool := false
  /-- `^` and `$` also hold at the borders of lines. -/
  multiLine : Bool := false
  /-- The dot also stands for a line feed. -/
  dotAll : Bool := false
  /-- Blanks and comments in the expression are skipped. -/
  verbose : Bool := false
  /-- Classes and case know the characters below 128 only. -/
  ascii : Bool := false
  /-- Repeats are refused. -/
  template : Bool := false
  deriving Repr, DecidableEq

/-- Which characters count as one when case is ignored. -/
inductive Folding where
  | exact
  | ascii
  | full
  deriving Repr, DecidableEq

/-- The folding that the flags ask for. -/
def Flags.folding (flags : Flags) : Folding :=
  if flags.ignoreCase then
    if flags.ascii then .ascii else .full
  else
    .exact

end NoticeScan.Regex
