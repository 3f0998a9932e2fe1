import NoticeScan.Files.Error
import NoticeScan.Text.Utf8

/-!
# Trees of files

Files and folders below a folder in which paths start. A path is walked part by part: each part
has to be found in a folder, and two dots lead to the folder above. Of what is outside of the tree
nothing is known but that there are folders above it.
-/

namespace NoticeScan.Files

/-- What stands at a place of a tree. -/
inductive Entry where
  | file (bytes : List UInt8)
  | folder
  deriving Repr, DecidableEq

/-- A tree: the places of its files and folders, each with the parts that lead to it. -/
structure Tree where
  entries : List (List (List Char) × Entry) := []
  deriving Repr, DecidableEq

/-- Where a walk has led. -/
inductive Place where
  | inside (parts : List (List Char))
  | outside
  deriving Repr, DecidableEq

/-- The most bytes in the name of a file. -/
def nameLimit : Nat := 255

/-- The number of bytes from which on a path is too long. -/
def pathLimit : Nat := 4096

/-- The part that leads to the folder above. -/
def upward : List Char :=
  ['.', '.']

/-- The number of bytes of a text. -/
def byteLength (s : List Char) : Nat :=
  (Text.Utf8.encode s).length

namespace Tree

/-- What stands at a place. The start of the tree is a folder. -/
def entry? (tree : Tree) (parts : List (List Char)) : Option Entry :=
  if parts.isEmpty then some .folder else tree.entries.lookup parts

/-- A tree with something at a place where nothing stands. -/
def add (tree : Tree) (parts : List (List Char)) (entry : Entry) : Tree :=
  { tree with entries := tree.entries ++ [(parts, entry)] }

/-- A tree with a file at a place, which replaces what stands there. -/
def put (tree : Tree) (parts : List (List Char)) (bytes : List UInt8) : Tree :=
  { tree with
    entries := tree.entries.filter (fun entry => entry.1 != parts) ++ [(parts, .file bytes)] }

/-! ## Walking -/

/-- One step of a walk. -/
def enter (tree : Tree) (place : Place) (part : List Char) : Except Error Place :=
  match place with
  | .outside => if part = upward then .ok .outside else .error .missing
  | .inside parts =>
      if tree.entry? parts ≠ some .folder then
        .error .notFolder
      else if part = upward then
        .ok (if parts.isEmpty then .outside else .inside parts.dropLast)
      else if nameLimit < byteLength part then
        .error .nameTooLong
      else if (tree.entry? (parts ++ [part])).isSome then
        .ok (.inside (parts ++ [part]))
      else
        .error .missing

/-- Where a path leads. -/
def walk (tree : Tree) (path : Path) : Except Error Place :=
  if pathLimit ≤ byteLength path.text then .error .nameTooLong
  else path.parts.foldlM tree.enter (if path.root.isEmpty then .inside [] else .outside)

/-- Whether a path leads to a folder. -/
def isFolder (tree : Tree) (path : Path) : Bool :=
  match tree.walk path with
  | .ok .outside => true
  | .ok (.inside parts) => tree.entry? parts = some .folder
  | .error _ => false

/-- The bytes of a file. -/
def read (tree : Tree) (path : Path) : Except Error (List UInt8) :=
  match tree.walk path with
  | .error error => .error error
  | .ok .outside => .error .isFolder
  | .ok (.inside parts) =>
      match tree.entry? parts with
      | some (.file bytes) => .ok bytes
      | some .folder => .error .isFolder
      | none => .error .missing

/-! ## Writing -/

/-- Where something can be made: the place in the folder that a path's last part is in. -/
def site (tree : Tree) (path : Path) (last : List Char) : Except Error Place :=
  if pathLimit ≤ byteLength path.text then
    .error .nameTooLong
  else
    match tree.walk path.parent with
    | .error error => .error error
    | .ok .outside => .ok .outside
    | .ok (.inside parts) =>
        if tree.entry? parts ≠ some .folder then .error .notFolder
        else if nameLimit < byteLength last then .error .nameTooLong
        else .ok (.inside (parts ++ [last]))

/-- The last part of a path, if it names something. -/
def lastName? (path : Path) : Option (List Char) :=
  match path.parts.getLast? with
  | some last => if last = upward then none else some last
  | none => none

/-- Makes a folder where nothing stands. What is made outside of the tree is not kept. -/
def makeFolder (tree : Tree) (path : Path) : Except Error Tree :=
  match lastName? path with
  | none => (tree.walk path).bind fun _ => .error .exists
  | some last =>
      match tree.site path last with
      | .error error => .error error
      | .ok .outside => .ok tree
      | .ok (.inside parts) =>
          if (tree.entry? parts).isSome then .error .exists else .ok (tree.add parts .folder)

/-- A failure to make a folder does not matter if there is one. -/
def orStanding (tree : Tree) (path : Path) (result : Except Error Tree) : Except Error Tree :=
  match result with
  | .ok made => .ok made
  | .error error => if tree.isFolder path then .ok tree else .error error

/-- Makes sure that there is a folder at a place, of which the parts are given from the last to
the first; where the one above is missing, it is made first. -/
def ensureFolderAt (root : List Char) : (reversed : List (List Char)) → Tree → Except Error Tree
  | [], tree => .ok tree
  | last :: above, tree =>
      let path : Path := ⟨root, (last :: above).reverse⟩
      match tree.makeFolder path with
      | .error .missing =>
          match ensureFolderAt root above tree with
          | .ok grown => grown.orStanding path (grown.makeFolder path)
          | .error error => .error error
      | result => tree.orStanding path result

/-- Makes sure that there is a folder at a path. -/
def ensureFolder (tree : Tree) (path : Path) : Except Error Tree :=
  ensureFolderAt path.root path.parts.reverse tree

/-- Writes a file into a folder that is there. What is written outside of the tree is not kept. -/
def write (tree : Tree) (path : Path) (bytes : List UInt8) : Except Error Tree :=
  match lastName? path with
  | none => (tree.walk path).bind fun _ => .error .isFolder
  | some last =>
      match tree.site path last with
      | .error error => .error error
      | .ok .outside => .ok tree
      | .ok (.inside parts) =>
          if tree.entry? parts = some .folder then .error .isFolder
          else .ok (tree.put parts bytes)

/-- Writes a file, into a folder that is made if it is not there. -/
def save (tree : Tree) (path : Path) (bytes : List UInt8) : Except Error Tree :=
  match tree.ensureFolder path.parent with
  | .error error => .error error
  | .ok grown => grown.write path bytes

/-- The files of a tree with the texts of their paths. -/
def files (tree : Tree) : List (List Char × List UInt8) :=
  tree.entries.filterMap fun (parts, entry) =>
    match entry with
    | .file bytes => some (Path.text ⟨[], parts⟩, bytes)
    | .folder => none

end Tree

end NoticeScan.Files
