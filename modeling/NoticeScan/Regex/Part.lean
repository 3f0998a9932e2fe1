import NoticeScan.Regex.Numbers

/-!
# Parts of an expression while it is being read

A part is a tree with what has to be known of it later: how many characters it can take, and the
first fault in it that is reported only when the whole text has been read.
-/

namespace NoticeScan.Regex

/-- How many characters a part takes, at least and at most. -/
structure Width where
  low : Nat
  high : Nat
  deriving Repr, DecidableEq

/-- A width that no sum of widths exceeds. -/
def Width.capped (width : Width) : Width :=
  ⟨min width.low (endless - 1), min width.high endless⟩

/-- One width after the other. -/
def Width.add (first second : Width) : Width :=
  ⟨first.low + second.low, first.high + second.high⟩

/-- Either of two widths. -/
def Width.either (first second : Width) : Width :=
  ⟨min first.low second.low, max first.high second.high⟩

/-- A tree with its width and its late fault. -/
structure Part where
  node : Node
  width : Width := ⟨0, 0⟩
  late : Option Fault := none
  deriving Repr, DecidableEq

/-- The first fault of two parts. -/
def firstFault (first second : Option Fault) : Option Fault :=
  match first with
  | some fault => some fault
  | none => second

/-- Parts one after the other. -/
def Part.sequence (parts : List Part) : Part where
  node := .sequence (parts.map (·.node))
  width := ((parts.map (·.width)).foldl Width.add ⟨0, 0⟩).capped
  late := (parts.map (·.late)).foldl firstFault none

/-- Parts of which an earlier one is tried before a later one. -/
def Part.choice (parts : List Part) : Part where
  node := .choice (parts.map (·.node))
  width := ((parts.map (·.width)).foldl Width.either ⟨endless - 1, 0⟩).capped
  late := (parts.map (·.late)).foldl firstFault none

end NoticeScan.Regex
