import DottedNames.Command.Run
import Std.Time.Zoned

/-!
# The program

Reads what a run needs, runs it, and writes what it leaves behind. Everything that is decided is
decided in `DottedNames.Command.Run`.
-/

namespace DottedNames.Command

/-- Why a file cannot be read, by the number of the system error. -/
def readFaultOfCode (code : UInt32) : ReadFault :=
  match code.toNat with
  | 20 => .notDirectory
  | 21 => .isDirectory
  | 36 => .nameTooLong
  | _ => .missing

/-- Why a file cannot be read, by the error that reading it raised. -/
def readFaultOfError : IO.Error → ReadFault
  | .inappropriateType _ code _ => readFaultOfCode code
  | .invalidArgument _ code _ => readFaultOfCode code
  | _ => .missing

/-- The bytes of a file, or why it cannot be read. -/
def readFileBytes (path : Text) : IO (Except ReadFault (List UInt8)) := do
  try
    let bytes ← IO.FS.readBinFile (String.ofList path)
    return .ok bytes.toList
  catch e =>
    return .error (readFaultOfError e)

/-- What the clock of the system shows. -/
def currentMoment : IO Moment := do
  let now ← Std.Time.DateTime.now
  let date : Date := {
    year := now.year.toInt.toNat
    month := now.month.val.toNat
    day := now.day.val.toNat }
  let time : TimeOfDay := {
    hour := now.hour.val.toNat
    minute := now.minute.val.toNat
    second := now.second.val.toNat
    microsecond := now.nanosecond.val.toNat / 1000 }
  return {
    date, time
    ahead := now.offset.second.val / 60
    zone := now.timezone.abbreviation.toList }

/-- Run the program with some arguments, and yield its exit code. -/
def execute (arguments : List String) : IO UInt32 := do
  let environment ← IO.getEnv "FQNKIT_LOG_MODE"
  let bare : Invocation := {
    arguments := arguments.map String.toList
    input := []
    environment := environment.map String.toList
    moment := ← currentMoment
    installed := true
    read := fun _ => .error .missing }
  let complete ← match bare.need with
    | .nothing => pure bare
    | .input =>
      let input ← (← IO.getStdin).readBinToEnd
      pure { bare with input := input.toList }
    | .file path =>
      let content ← readFileBytes path
      pure { bare with read := fun _ => content }
  let outcome := complete.run
  (← IO.getStdout).putStr (String.ofList outcome.output)
  (← IO.getStderr).putStr (String.ofList outcome.errors)
  return outcome.exit.toUInt32

end DottedNames.Command

/-- The program. -/
def main (arguments : List String) : IO UInt32 := DottedNames.Command.execute arguments
