import ModBench.Lint.Simulation

/-!
A scripted compiler: a list of replies, each used once.  A run takes the first reply that is meant
for its source or for any source; when none is left it ends at once with empty output.
-/

set_option autoImplicit false
set_option relaxedAutoImplicit false

namespace ModBench.Host

/-- How a scripted run ends. -/
inductive Ending where
  | crash
  | spawnError (cause : String)
  | exit (status : Option Int)
  | success
  deriving DecidableEq, Repr, Inhabited

/-- A reply of the scripted compiler. -/
structure Reply where
  /-- The source the reply is meant for; any source when absent. -/
  source : Option String := none
  delay : Nat := 0
  stdout : String := ""
  stderr : String := ""
  ending : Ending := .success
  deriving DecidableEq, Repr, Inhabited

namespace Reply

def answers (r : Reply) (command : CommandLine) : Bool :=
  match r.source with
  | none => true
  | some source => command.args[2]? == some (.ofString source)

def run (r : Reply) (command : CommandLine) : Run :=
  let program := command.program.toString
  { delay := r.delay,
    ending := match r.ending with
      | .crash => none
      | .spawnError cause => some (.error (.spawn program cause))
      | .exit status => some (.error (.failed program status r.stderr))
      | .success => some (.ok ⟨r.stdout, r.stderr⟩) }

end Reply

/-- The first reply that may answer a command, and the replies without it. -/
def takeReply (command : CommandLine) : List Reply → Option Reply × List Reply
  | [] => (none, [])
  | r :: rest =>
    if r.answers command then (some r, rest)
    else
      let (found, rest) := takeReply command rest
      (found, r :: rest)

def scripted : Runner (List Reply) := fun command replies =>
  match takeReply command replies with
  | (some r, rest) => (r.run command, rest)
  | (none, rest) => (Run.mk 0 (some (.ok (ProcessOutput.mk "" ""))), rest)

/-- A scripted run whose duration does not matter; none for a crash. -/
def scriptedOnce (command : CommandLine) (replies : List Reply) :
    Except ProcessError ProcessOutput × List Reply :=
  let (course, rest) := scripted command replies
  (course.ending.getD (.ok (ProcessOutput.mk "" "")), rest)

end ModBench.Host
