import ModBench.Config.Expand
import ModBench.Files.Directories
import ModBench.Host.Script
import ModBench.Host.Tool

/-!
Machines: a disk, the programs on it and the environment they run in.  Running a command finds its
program from the directory that the command asks for, and the program's replies are scripted.
-/

set_option autoImplicit false
set_option relaxedAutoImplicit false

namespace ModBench.Host

open Files (Disk Fault Name Place SystemFault)

structure CompilerCall where
  /-- The directory that the compiler was run in. -/
  cwd : Path
  args : List Path
  deriving DecidableEq, Repr, Inhabited

/-- A disk with its programs, an environment and the compiler's replies. -/
structure Machine where
  disk : Disk
  environment : Environment := fun _ => none
  /-- The home directory of the user when the environment names none. -/
  fallbackHome : Path := Path.ofString "/root"
  /-- Where the compiler's program is. -/
  compiler : Place := []
  /-- The compiler's replies to its next runs. -/
  replies : List Reply := []
  /-- The runs of the compiler so far. -/
  calls : List CompilerCall := []
  /-- The programs of the system. -/
  toolbox : Toolbox := fun _ => none

namespace Machine

/-- The user's home directory. -/
def home (m : Machine) : Path :=
  match m.environment "HOME" with
  | some home => if home.isEmpty then m.fallbackHome else Path.ofString home
  | none => m.fallbackHome

/-- What can be run. -/
inductive Executable where
  | compiler
  | tool (run : Tool)

def executableAt (m : Machine) (place : Place) : Except SystemFault Executable :=
  if place = m.compiler then .ok .compiler
  else
    match m.toolbox.at? place with
    | some tool => .ok (.tool tool)
    | none =>
      if (m.disk.tree.find? place).isSome then .error .permissionDenied else .error .notFound

/-- The program that a command names, seen from a disk: by its path, or by its name alone among the
programs of the system. -/
def findProgram (m : Machine) (d : Disk) (program : Path) : Except SystemFault Executable :=
  if program.bytes.contains slash then
    match d.walk true program with
    | .error fault => .error fault
    | .ok (.node place) => m.executableAt place
    | .ok (.vacant directory name) => m.executableAt (directory ++ [name])
  else if program.bytes = Files.dotName ∨ program.bytes = Files.dotsName then
    .error .permissionDenied
  else
    match m.toolbox program.toString with
    | some tool => .ok (.tool tool)
    | none => .error .notFound

/-- The disk as a program sees it that was started in a directory. -/
def enter (m : Machine) (cwd : Option Path) : Except SystemFault Disk :=
  match cwd with
  | none => .ok m.disk
  | some p =>
    match m.disk.walk true p with
    | .error fault => .error fault
    | .ok (.vacant _ _) => .error .notFound
    | .ok (.node place) =>
      if m.disk.tree.find? place = some .directory then .ok { m.disk with cwd := place }
      else .error .notADirectory

/-- What the end of a program means for the command that was run. -/
def resultOf (program : String) (r : ToolResult) : Except ProcessError ProcessOutput :=
  if r.status = some 0 then .ok ⟨Text.decodeLossy r.stdout, Text.decodeLossy r.stderr⟩
  else .error (.failed program (r.status.map Int.ofNat) (Text.decodeLossy r.stderr))

/-- How a reply of the compiler ends. -/
def resultOfReply (d : Disk) (r : Reply) : ToolResult :=
  { stdout := Text.encodeString r.stdout, stderr := Text.encodeString r.stderr, disk := d,
    status := match r.ending with
      | .exit (some n) => some n.toNat
      | .success => some 0
      | _ => none }

/-- Run the compiler once: its next reply, or silence when there is none. -/
def runCompiler (m : Machine) (d : Disk) (args : List Path) : ToolResult × Machine :=
  let call : CompilerCall := ⟨d.currentDirectory, args⟩
  let reply := m.replies.head?.getD {}
  (resultOfReply d reply, { m with replies := m.replies.tail, calls := m.calls ++ [call] })

/-- Whether a text of a command has the character that ends texts for the system. -/
def hasNul (c : CommandLine) : Bool :=
  !Disk.isSpellable c.program || c.args.any (fun arg => !Disk.isSpellable arg) ||
    (c.cwd.map fun p => !Disk.isSpellable p).getD false

/-- Run a command to its end. -/
def execute (c : CommandLine) (m : Machine) : Except ProcessError ProcessOutput × Machine :=
  let program := c.program.toString
  if hasNul c then (.error (.spawn program "nul byte found in provided data"), m)
  else
    match m.enter c.cwd with
    | .error fault => (.error (.spawn program fault.message), m)
    | .ok d =>
      match m.findProgram d c.program with
      | .error fault => (.error (.spawn program fault.message), m)
      | .ok (.tool tool) =>
        let result := tool
          { name := program, args := c.args.map Path.toString, environment := m.environment,
            disk := d }
        (resultOf program result, { m with disk := { result.disk with cwd := m.disk.cwd } })
      | .ok .compiler =>
        let (result, m) := m.runCompiler d c.args
        (resultOf program result, m)

end Machine

end ModBench.Host
