/-!
# Paths

A path is a root and a list of parts. Empty parts and parts that are a single dot mean nothing
and are left out; a part of two dots is kept, since what it means depends on the files.
-/

namespace NoticeScan

/-- A path. -/
structure Path where
  /-- The slashes that it starts with: none when it is relative, and otherwise one or two. -/
  root : List Char
  parts : List (List Char)
  deriving Repr, DecidableEq

namespace Path

/-- The slashes at the start of a text. Exactly two are told apart from one; more are not. -/
def rootOf (s : List Char) : List Char :=
  let slashes := s.takeWhile (· == '/')
  if slashes.length = 2 then slashes else slashes.take 1

/-- The pieces of a text between slashes. -/
def pieces : List Char → List (List Char)
  | [] => [[]]
  | c :: rest =>
      if c = '/' then [] :: pieces rest
      else
        match pieces rest with
        | [] => [[c]]
        | piece :: more => (c :: piece) :: more

/-- Whether a piece names something. -/
def isPart (piece : List Char) : Bool :=
  !piece.isEmpty && piece != ['.']

/-- The path of a text. -/
def ofText (s : List Char) : Path where
  root := rootOf s
  parts := (pieces s).filter isPart

/-- The text of a path. A path without anything is a single dot. -/
def text (path : Path) : List Char :=
  if path.root.isEmpty && path.parts.isEmpty then ['.']
  else path.root ++ List.intercalate ['/'] path.parts

/-- The path of the folder that a path is in. -/
def parent (path : Path) : Path :=
  { path with parts := path.parts.dropLast }

end Path

end NoticeScan
