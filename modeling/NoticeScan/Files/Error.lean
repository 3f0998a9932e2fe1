import NoticeScan.Files.Path
import NoticeScan.Text.Quoted

/-!
# Errors of a file system

Each error has a number and a wording; a message shows both, and the path that is meant.
-/

namespace NoticeScan.Files

/-- Why a file cannot be read or written. -/
inductive Error where
  | missing
  | exists
  | notFolder
  | isFolder
  | nameTooLong
  /-- An error that only a particular system knows of. -/
  | other (number : Nat) (wording : String)
  deriving Repr, DecidableEq

namespace Error

/-- The number of an error. -/
def number : Error → Nat
  | .missing => 2
  | .exists => 17
  | .notFolder => 20
  | .isFolder => 21
  | .nameTooLong => 36
  | .other number _ => number

/-- The wording of an error. -/
def wording : Error → String
  | .missing => "No such file or directory"
  | .exists => "File exists"
  | .notFolder => "Not a directory"
  | .isFolder => "Is a directory"
  | .nameTooLong => "File name too long"
  | .other _ wording => wording

/-- The error of a number. -/
def ofNumber (number : Nat) (wording : String) : Error :=
  match number with
  | 2 => .missing
  | 17 => .exists
  | 20 => .notFolder
  | 21 => .isFolder
  | 36 => .nameTooLong
  | _ => .other number wording

@[simp]
theorem number_ofNumber (number : Nat) (wording : String) :
    (ofNumber number wording).number = number := by
  unfold ofNumber
  split <;> rfl

/-- The message about an error at a path. -/
def message (error : Error) (path : Path) : String :=
  "[Errno " ++ toString error.number ++ "] " ++ error.wording ++ ": " ++
    String.ofList (Text.quoted path.text)

end Error

end NoticeScan.Files
