import ModBench.Host.Tool
import ModBench.Files.Directories
import ModBench.Shell.Command

/-!
The state of a shell.  Descriptors lead to channels; what is written to a channel is kept in pieces,
the latest first.
-/

set_option autoImplicit false
set_option relaxedAutoImplicit false

namespace ModBench.Shell

open Files (Content Disk Place)
open Host (Toolbox)

/-- Where a descriptor leads to. -/
inductive Channel where
  | collected (n : Nat)
  | file (place : Place)
  | lost
  deriving DecidableEq, Repr, Inhabited

/-- Whether commands go on. -/
inductive Flow where
  | on
  /-- Some loops are being left. -/
  | breaking (loops : Nat)
  /-- The next turn of a loop is sought. -/
  | continuing (loops : Nat)
  | returning
  | exiting
  /-- A signal ended the shell. -/
  | killed (signal : Nat)
  deriving DecidableEq, Repr, Inhabited

structure State where
  disk : Disk
  toolbox : Toolbox := fun _ => none
  environment : Environment := fun _ => none
  /-- Variables that were set; they hide those of the environment. -/
  bindings : List (String × Option String) := []
  /-- Variables that commands are to see. -/
  exported : List String := []
  functions : List (String × Command) := []
  /-- The name of the shell or of its script. -/
  name : String := "sh"
  args : List String := []
  status : Nat := 0
  flow : Flow := .on
  descriptors : List (Nat × Channel) := [(1, .collected 0), (2, .collected 1)]
  input : List UInt8 := []
  /-- The collected outputs, each in pieces with the latest first. -/
  outputs : List (List (List UInt8)) := [[], []]
  /-- Commands that run in the background, with their descriptors. -/
  waiting : List (Command × List (Nat × Channel)) := []
  /-- What is done for a signal or at the end. -/
  traps : List (String × String) := []
  /-- How many lines the script has. -/
  lines : Nat := 1
  /-- The line of the command that runs now. -/
  line : Nat := 1
  /-- Whether a failure ends the shell. -/
  failsFast : Bool := false
  /-- Whether the outcome of what runs now is being tested. -/
  isTested : Bool := false

namespace State

def valueOf? (st : State) (name : String) : Option String :=
  match st.bindings.find? fun v => v.1 == name with
  | some (_, value) => value
  | none => st.environment name

def setVariable (st : State) (name : String) (value : Option String) : State :=
  { st with bindings := (name, value) :: st.bindings.filter fun v => v.1 != name }

/-- The environment that commands see, with some more variables set. -/
def environmentFor (st : State) (settings : List (String × String)) : Environment := fun name =>
  match settings.find? fun v => v.1 == name with
  | some (_, value) => some value
  | none =>
    if st.exported.contains name || (st.environment name).isSome then st.valueOf? name else none

def withStatus (st : State) (status : Nat) : State :=
  { st with status := status }

def channel? (st : State) (descriptor : Nat) : Option Channel :=
  (st.descriptors.find? fun d => d.1 == descriptor).map Prod.snd

def setChannel (st : State) (descriptor : Nat) (channel : Option Channel) : State :=
  let others := st.descriptors.filter fun d => d.1 != descriptor
  { st with
    descriptors := match channel with
      | some c => (descriptor, c) :: others
      | none => others }

def writeTo (st : State) (channel : Channel) (bytes : List UInt8) : State :=
  match channel with
  | .collected n => { st with outputs := st.outputs.modify n fun pieces => bytes :: pieces }
  | .file place =>
    match st.disk.tree.find? place with
    | some (.file content) =>
      { st with disk := st.disk.put place (.file (.bytes (content.data ++ bytes))) }
    | _ => st
  | .lost => st

/-- Write to a descriptor; a closed one takes nothing. -/
def write (st : State) (descriptor : Nat) (bytes : List UInt8) : State :=
  if bytes.isEmpty then st
  else
    match st.channel? descriptor with
    | some channel => st.writeTo channel bytes
    | none => st

/-- Everything collected in an output. -/
def collected (st : State) (n : Nat) : List UInt8 :=
  (st.outputs[n]?.getD []).reverse.flatten

/-- A new output to collect in. -/
def openOutput (st : State) : Nat × State :=
  (st.outputs.length, { st with outputs := st.outputs ++ [[]] })

/-- Complain about something. -/
def complain (st : State) (words : String) (status : Nat) : State :=
  let text := st.name ++ ": " ++ toString st.line ++ ": " ++ words ++ "\n"
  (st.write 2 (Text.encodeString text)).withStatus status

/-- What a copy of a shell leaves in the shell that it was made from. -/
def rejoin (outer inner : State) : State :=
  { outer with
    outputs := inner.outputs,
    disk := { inner.disk with cwd := outer.disk.cwd },
    input := inner.input,
    waiting := inner.waiting,
    status := inner.status,
    flow := match inner.flow with
      | .killed signal => .killed signal
      | _ => outer.flow }

/-- Do something in a copy of the shell. -/
def apart (st : State) (f : State → State) : State :=
  st.rejoin (f { st with traps := [] })

/-- Do something in a copy of the shell and collect what it writes. -/
def collecting (st : State) (f : State → State) : List UInt8 × State :=
  let (n, st) := st.openOutput
  let after := st.apart fun st => f (st.setChannel 1 (some (.collected n)))
  (after.collected n, { after with outputs := after.outputs.set n [] })

end State

end ModBench.Shell
