import NoticeScan.CommandLine.Run

/-!
# The program

The command line on the files and the output of the system that it runs on.
-/

namespace NoticeScan.CommandLine

/-- The number of an error; some calls of the system report it with its sign turned. -/
def numberOf (code : UInt32) : Nat :=
  code.toInt32.toInt.natAbs

/-- The number and the wording of an error of the system. -/
def causeOf : IO.Error → Nat × String
  | .noFileOrDirectory _ code wording | .interrupted _ code wording
  | .alreadyExists _ code wording | .invalidArgument _ code wording
  | .permissionDenied _ code wording | .resourceExhausted _ code wording
  | .inappropriateType _ code wording | .noSuchThing _ code wording
  | .otherError code wording | .resourceBusy code wording | .resourceVanished code wording
  | .unsupportedOperation code wording | .hardwareFault code wording
  | .unsatisfiedConstraints code wording | .illegalOperation code wording
  | .protocolError code wording | .timeExpired code wording => (numberOf code, wording)
  | .unexpectedEof => (5, "Input/output error")
  | .userError wording => (5, wording)

/-- Does something with files that may fail. -/
def attempt {α : Type} (action : IO α) : IO (Except Files.Error α) := do
  try
    return .ok (← action)
  catch error =>
    let (number, wording) := causeOf error
    return .error (.ofNumber number wording)

/-- The system as a host. -/
def system : Host IO where
  read path := attempt do
    return (← IO.FS.readBinFile (String.ofList path.text)).toList
  save path bytes := attempt do
    IO.FS.createDirAll (String.ofList path.parent.text)
    IO.FS.writeBinFile (String.ofList path.text) ⟨bytes.toArray⟩
  print text := do
    let output ← IO.getStdout
    output.putStr (String.ofList text)
    output.flush
  note text := IO.eprintln text

end NoticeScan.CommandLine

open NoticeScan.CommandLine

/-- Runs the program on the system. -/
def main (arguments : List String) : IO UInt32 := do
  match ← run system arguments with
  | .exit code => return code.toUInt32
  | .breakdown cause => do
      system.note cause.message
      return 1
