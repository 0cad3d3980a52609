import KeyCombo.Command.Outcome

set_option autoImplicit false

/-! # The program

Reads the command line and the input file, and delivers the outcome. -/

namespace KeyCombo

/-- The number of the system error behind a failed read. Some calls report it negated. -/
def systemNumber? : IO.Error → Option UInt32
  | .noFileOrDirectory _ code _ | .inappropriateType _ code _ | .invalidArgument _ code _
  | .permissionDenied _ code _ => some (min code (0 - code))
  | _ => none

/-- The fault behind a failed read. -/
def faultOfRead (e : IO.Error) : FileFault :=
  match systemNumber? e with
  | some 2 => .notFound
  | some 13 => .other "Permission denied (os error 13)"
  | some 20 => .notDirectory
  | some 21 => .isDirectory
  | some 36 => .nameTooLong
  | _ => .other (toString e)

/-- The bytes of a file, or why there are none. -/
def readFile (path : String) : IO (Except FileFault ByteArray) := do
  try return .ok (← IO.FS.readBinFile path)
  catch e => return .error (faultOfRead e)

/-- The outcome of a command line in the current folder. Its input is the only file that is read. -/
def outcomeHere (arguments : List String) : IO Outcome := do
  match Request.ofArguments arguments with
  | .ok .version => return .version
  | .ok (.run invocation) =>
    let bytes ← readFile invocation.input
    return invocation.outcome (FileSystem.load ⟨fun _ => bytes⟩ invocation.input)
  | .error e => return .usage e

end KeyCombo

def main (arguments : List String) : IO UInt32 := do
  let outcome ← KeyCombo.outcomeHere arguments
  IO.print outcome.stdout
  IO.eprint outcome.stderr
  return outcome.code.toUInt32
