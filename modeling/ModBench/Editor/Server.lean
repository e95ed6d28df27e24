import ModBench.Config.Load
import ModBench.Editor.Conversation
import ModBench.Host.Machine
import ModBench.Json.Reader

/-!
A server: a session whose linter runs its commands on a machine and whose settings come from the
configuration files there.
-/

set_option autoImplicit false
set_option relaxedAutoImplicit false

namespace ModBench.Editor

open Host (Machine)

abbrev Server := Session Machine

namespace Server

/-- The server before anything was agreed on. -/
def new (m : Machine) : Server := Session.new m

/-- A command that runs on the machine ends at the time at which it was started. -/
def runner : Runner Machine := fun command m =>
  let (ended, m) := m.execute command
  (Run.mk 0 (some ended), m)

/-- The lint settings in the user's file and in the file of a workspace. -/
def loader (m : Machine) (user : Option Path) : Loader := fun workspace =>
  match Config.load m.disk (some (user.getD (Config.userFile m.home))) workspace with
  | .ok layer => .ok (layer.lintSettings m.environment)
  | .error fault => .error fault.message

def machine (s : Server) : Machine := s.linter.runner

/-- The messages sent since they were last taken, and the server without them. -/
def takeOutbox (s : Server) : List Message × Server :=
  (s.outbox, { s with outbox := [] })

/-- Take a value in that the editor sent: the answer, if there is one, and what it did. -/
def take (user : Option Path) (s : Server) (j : Json) : Option Json × Server :=
  match Request.ofJson? j with
  | some r => s.exchange (loader s.machine user) r
  | none => (some (response .null (.error .invalidRequest)), s)

def takeText (user : Option Path) (s : Server) (text : String) : Option Json × Server :=
  match Json.parse? text with
  | some j => s.take user j
  | none => (some (response .null (.error .unreadable)), s)

/-- How many steps are waited for an event.  A tick that finds nothing takes a step, and so does
each turn of a pipeline. -/
def patience : Nat := 100000

/-- Let time pass until as many messages as wanted have been sent and the compiler has been run as
often as wanted, or until nothing more will happen. -/
def waitUntil (messages runs : Nat) (s : Server) : Server :=
  Session.waitFor runner
    (fun s => messages ≤ s.outbox.length && runs ≤ s.linter.runner.calls.length) patience s

/-- Let time pass until nothing more will happen. -/
def settle (s : Server) : Server :=
  Session.waitFor runner (fun _ => false) patience s

end Server

end ModBench.Editor
