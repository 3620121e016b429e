import Offside.Report

/-!
# Runs of the command line

The program lists the tokens of its source on standard output and shows the faults on standard error.
It succeeds when there are none. A fault that cannot be shown to the end stops it there and then.

A run is given the options that its arguments stand for. Reading is left to the host, in whatever monad that
takes, and so are the texts that are not the program's own: the lines of the log, and the notice of a run
that stops. Everything here is a function of these and of the bytes that were read. What a run leaves behind
is a value, and writing it out is left to the caller.
-/

namespace Offside.CommandLine

/-- What is to be done with a source, and which. -/
structure Options where
  /-- The file to read. A single hyphen stands for standard input, and nothing for the example. -/
  file : Option String
  /-- Check the shape of every token. -/
  validates : Bool
  /-- List no tokens. -/
  isQuiet : Bool
deriving DecidableEq, Repr

/-- How a run of the program ends. -/
inductive Status where
  | success
  | failure
  /-- The run stopped in the middle. -/
  | aborted
deriving DecidableEq, Repr

/-- The number that tells the caller of the program how it ended. -/
def Status.code : Status → Nat
  | .success => 0
  | .failure => 1
  | .aborted => 101

/-- Everything a run of the program leaves behind. -/
structure Outcome where
  status : Status
  stdout : String
  stderr : String
deriving DecidableEq, Repr

/-- What the program can ask its host to read. -/
inductive Input where
  | standardInput
  | file (path : String)
deriving DecidableEq, Repr

/-- Why a source could not be read. -/
inductive ReadFailure where
  /-- The system refused, with a text and a number of its own. -/
  | system (text : String) (number : Nat)
  /-- The bytes are not text. -/
  | notText
deriving DecidableEq, Repr

/-- The text of a failure to read. -/
def ReadFailure.message : ReadFailure → String
  | .system text number => s!"{text} (os error {number})"
  | .notText => "stream did not contain valid UTF-8"

/-- What surrounds a run of the program. -/
structure Host (m : Type → Type) where
  /-- The bytes of an input, or why there are none. -/
  read : Input → m (Except ReadFailure ByteArray)
  /-- What the log says of a token that has not the shape of its kind. -/
  warning : Token → String
  /-- What is said of a run that stops in the middle. -/
  notice : String

/-- The source that is read when no file is given. -/
def exampleSource : String :=
  "\ndef example():\n    x = 42\n    print(\"Hello, World!\")\n"

/-- The text that bytes encode in UTF-8. -/
def decode (bytes : ByteArray) : Except ReadFailure (List Char) :=
  match String.fromUTF8? bytes with
  | some text => .ok text.toList
  | none => .error .notText

variable {m : Type → Type}

/-- The name and text of the source that options ask for. -/
def load [Monad m] (host : Host m) : Options → m (String × Except ReadFailure (List Char))
  | ⟨none, _, _⟩ => pure ("<example>", .ok exampleSource.toList)
  | ⟨some "-", _, _⟩ => do return ("<stdin>", (← host.read .standardInput) >>= decode)
  | ⟨some path, _, _⟩ => do return (path, (← host.read (.file path)) >>= decode)

/-- What happens when a source was read. First the tokens are listed, then the faults are shown, and last the
shapes of the tokens are checked. -/
def tokenize (host : Host m) (options : Options) (label : String) (source : List Char) : Outcome :=
  let report := Report.ofSource source label
  let stdout := if options.isQuiet then "" else report.listing
  let complaints := report.complaints
  if complaints.isWhole then
    let misshapen := if options.validates then report.tokens.filter (!·.isWellShaped) else []
    { status := if report.printouts.isEmpty && misshapen.isEmpty then .success else .failure
      stdout
      stderr := complaints.text ++ String.join (misshapen.map host.warning) }
  else ⟨.aborted, stdout, complaints.text ++ host.notice⟩

/-- What happens when a source was read, or could not be. -/
def conclude (host : Host m) (options : Options) : String × Except ReadFailure (List Char) → Outcome
  | (_, .error failure) => ⟨.failure, "", "Failed to read input: " ++ failure.message ++ "\n"⟩
  | (label, .ok source) => tokenize host options label source

/-- A run of the program. -/
def run [Monad m] (host : Host m) (options : Options) : m Outcome := do
  return conclude host options (← load host options)

end Offside.CommandLine
