import ModBench.Path
import ModBench.Text.Blank

/-!
External commands: what is run, what a finished run leaves, and why a run can fail.
-/

set_option autoImplicit false
set_option relaxedAutoImplicit false

namespace ModBench

inductive OutputStream where
  | stdout
  | stderr
  deriving DecidableEq, Repr, Inhabited

/-- A program with its arguments and, optionally, the directory to run it in.  An argument is a
string of bytes, as a path is. -/
structure CommandLine where
  program : Path
  args : List Path
  cwd : Option Path := none
  deriving DecidableEq, Repr, Inhabited

/-- Program and arguments with a space between each two. -/
def CommandLine.text (c : CommandLine) : String :=
  c.program.toString ++ String.join (c.args.map fun arg => " " ++ arg.toString)

/-- The output of a process that ended with status zero. -/
structure ProcessOutput where
  stdout : String := ""
  stderr : String := ""
  deriving DecidableEq, Repr, Inhabited

def ProcessOutput.stream (o : ProcessOutput) : OutputStream → String
  | .stdout => o.stdout
  | .stderr => o.stderr

/-- Why a process gave no output. -/
inductive ProcessError where
  /-- The process could not be started, for the given cause. -/
  | spawn (program : String) (cause : String)
  /-- The process ended with a status other than zero, or by a signal (no status). -/
  | failed (program : String) (status : Option Int) (stderr : String)
  deriving DecidableEq, Repr, Inhabited

namespace ProcessError

/-- How a process ended, in words. -/
def describeStatus : Option Int → String
  | some code => "status " ++ toString code
  | none => "no status (terminated by signal)"

/-- The text shown to the user. -/
def message : ProcessError → String
  | spawn program cause => "failed to start " ++ program ++ ": " ++ cause
  | failed program status stderr =>
    program ++ " exited with " ++ describeStatus status ++ ": " ++ Text.trimString stderr

def status : ProcessError → Option Int
  | spawn _ _ => none
  | failed _ status _ => status

def stderr : ProcessError → String
  | spawn _ _ => ""
  | failed _ _ stderr => stderr

end ProcessError

end ModBench
