import NoticeScan.Scan.Finding

/-!
# Fragments

Places where contract words have been found. One that is close to the one before is joined to it;
only a limited number is kept.
-/

namespace NoticeScan.Scan

/-- A fragment is joined to the one before when fewer lines than this lie between them … -/
def joinLines : Nat := 6

/-- … or fewer characters than this. -/
def joinChars : Nat := 300

/-- A stretch of a text with contract words. -/
structure Fragment where
  text : List Char
  startLine : Nat
  endLine : Nat
  start : Nat
  stop : Nat
  deriving Repr, DecidableEq

/-- A fragment as a finding: a licence that nobody knows. -/
def Fragment.finding (fragment : Fragment) : Finding where
  party := .unknown
  kind := .license
  text := fragment.text
  startLine := fragment.startLine
  endLine := fragment.endLine
  start := fragment.start
  stop := fragment.stop

/-- Whether a fragment is close behind another one. -/
def Fragment.isCloseTo (next prior : Fragment) : Bool :=
  next.startLine < prior.endLine + joinLines || next.start < prior.stop + joinChars

/-- Two fragments as one. -/
def Fragment.join (prior next : Fragment) : Fragment where
  text := prior.text ++ "...".toList ++ next.text
  startLine := prior.startLine
  endLine := next.endLine
  start := prior.start
  stop := next.stop

/-- The fragments collected so far. Only the last one can still grow. -/
structure Fragments where
  /-- How many are kept. -/
  limit : Int
  /-- The last one that is kept. -/
  last : Option Fragment := none
  /-- Those before it, the latest first. -/
  earlier : List Fragment := []
  /-- How many have been found that were not joined to the one before, kept or not. -/
  count : Nat := 0
  deriving Repr, DecidableEq

namespace Fragments

/-- Adds a fragment that is not joined to the last one. -/
def start (fragments : Fragments) (next : Fragment) : Fragments :=
  if (fragments.count : Int) < fragments.limit then
    { fragments with
      last := some next
      earlier := fragments.last.toList ++ fragments.earlier
      count := fragments.count + 1 }
  else
    { fragments with count := fragments.count + 1 }

/-- Adds a fragment. -/
def add (fragments : Fragments) (next : Fragment) : Fragments :=
  match fragments.last with
  | some prior =>
      if next.isCloseTo prior then { fragments with last := some (prior.join next) }
      else fragments.start next
  | none => fragments.start next

/-- The fragments that are kept, in order. -/
def toList (fragments : Fragments) : List Fragment :=
  (fragments.last.toList ++ fragments.earlier).reverse

/-- The fragments that are kept, as findings. -/
def findings (fragments : Fragments) : List Finding :=
  fragments.toList.map Fragment.finding

end Fragments

end NoticeScan.Scan
