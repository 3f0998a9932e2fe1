import NoticeScan.Files.Tree
import NoticeScan.Json.Lines
import NoticeScan.Json.Reader

/-!
# Files of records

Records are saved one to a line. The folder of the file is made first; the file itself is written
when all records have been put into lines.
-/

namespace NoticeScan

/-- The bytes of the line of a record that can be written. -/
def Json.lineBytes? (record : Json) : Option (List UInt8) :=
  record.line?.map Text.Utf8.encode

/-- The value that some bytes are, if they are one. -/
def Json.ofBytes? (bytes : List UInt8) : Option Json :=
  (Text.Utf8.decode? bytes).bind (parseWith? narrowInteger)

namespace Files

/-- Why records cannot be saved. -/
inductive RecordError where
  /-- One of them cannot be put into a line. -/
  | refused
  | file (error : Error)
  deriving Repr, DecidableEq

namespace Tree

/-- What becomes of a tree when there is to be a folder at a place and it cannot be made. The
folders above may have been made before that is found out. -/
def leftAt (root : List Char) : (reversed : List (List Char)) → Tree → Tree
  | [], tree => tree
  | last :: above, tree =>
      match tree.makeFolder ⟨root, (last :: above).reverse⟩ with
      | .error .missing =>
          match ensureFolderAt root above tree with
          | .ok grown => grown
          | .error _ => leftAt root above tree
      | _ => tree

/-- Saves records in a file, and the tree that is there then. `line?` puts a record into a line, if
that is possible. -/
def saveRecords {α : Type} (line? : α → Option (List UInt8)) (tree : Tree) (path : Path)
    (records : List α) : Except RecordError Unit × Tree :=
  match tree.ensureFolder path.parent with
  | .error error => (.error (.file error), leftAt path.root path.parent.parts.reverse tree)
  | .ok grown =>
      match records.mapM line? with
      | none => (.error .refused, grown)
      | some lines =>
          match grown.write path lines.flatten with
          | .error error => (.error (.file error), grown)
          | .ok written => (.ok (), written)

end Tree

end Files

end NoticeScan
