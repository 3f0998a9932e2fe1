import NoticeScan.Files.Tree

/-!
# Hosts

What the program needs from the system it runs on: files, a place for its output and one for its
notes. The desk is a host that keeps everything in memory.
-/

namespace NoticeScan.CommandLine

/-- A system to run on. -/
structure Host (m : Type → Type) where
  /-- The bytes of a file. -/
  read : Path → m (Except Files.Error (List UInt8))
  /-- Writes a file, into a folder that is made if it is not there. -/
  save : Path → List UInt8 → m (Except Files.Error Unit)
  /-- Writes some output. -/
  print : List Char → m Unit
  /-- Writes a note. -/
  note : String → m Unit

/-- A system in memory. -/
structure Desk where
  tree : Files.Tree := {}
  output : List Char := []
  notes : List String := []
  deriving Repr, DecidableEq

namespace Desk

/-- A desk with a file more, or the reason for which it cannot be written. -/
def save (desk : Desk) (path : Path) (bytes : List UInt8) : Except Files.Error Unit × Desk :=
  match desk.tree.save path bytes with
  | .ok tree => (.ok (), { desk with tree := tree })
  | .error error => (.error error, desk)

/-- The desk as a host. -/
def host : Host (StateM Desk) where
  read path := fun desk => (desk.tree.read path, desk)
  save path bytes := fun desk => desk.save path bytes
  print text := fun desk => ((), { desk with output := desk.output ++ text })
  note text := fun desk => ((), { desk with notes := desk.notes ++ [text] })

end Desk

end NoticeScan.CommandLine
