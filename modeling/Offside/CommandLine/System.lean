import Offside.CommandLine.Run

/-!
# The program on a system

The command line with a real system around it: files and standard input are read, and what a run leaves
behind is written out. Nothing is decided here, and the texts of the log and of the runtime are given.
-/

namespace Offside.CommandLine

/-- The text and the number that the system gives for a failure. -/
def ReadFailure.ofSystem : IO.Error → ReadFailure
  | .alreadyExists _ number text | .otherError number text | .resourceBusy number text
  | .resourceVanished number text | .unsupportedOperation number text | .hardwareFault number text
  | .unsatisfiedConstraints number text | .illegalOperation number text | .protocolError number text
  | .timeExpired number text | .interrupted _ number text | .noFileOrDirectory _ number text
  | .invalidArgument _ number text | .permissionDenied _ number text
  | .resourceExhausted _ number text | .inappropriateType _ number text
  | .noSuchThing _ number text => .system text number.toNat
  | .unexpectedEof => .system "Unexpected end of file" 0
  | .userError text => .system text 0

/-- The bytes of an input, as far as the system gives them. -/
def readInput (input : Input) : IO (Except ReadFailure ByteArray) := do
  try
    match input with
    | .standardInput => return .ok (← (← IO.getStdin).readBinToEnd)
    | .file path => return .ok (← IO.FS.withFile path .read fun handle => handle.readBinToEnd)
  catch failure =>
    return .error (.ofSystem failure)

/-- Run the program, write out what the run leaves behind, and give back the number of its end. -/
def execute (warning : Token → String) (notice : String) (options : Options) : IO UInt32 := do
  let outcome ← run ⟨readInput, warning, notice⟩ options
  (← IO.getStdout).putStr outcome.stdout
  (← IO.getStderr).putStr outcome.stderr
  return UInt32.ofNat outcome.status.code

end Offside.CommandLine
