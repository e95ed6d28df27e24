import ModBench.Config.Decode
import ModBench.Files.Read

/-!
Configuration files.  The user's file comes first and the workspace's file is laid on top; a file
that does not exist sets nothing.
-/

set_option autoImplicit false
set_option relaxedAutoImplicit false

namespace ModBench.Config

open Files (Disk)

/-- Why a configuration could not be loaded. -/
inductive LoadFault where
  | read (path : Path) (fault : Files.Fault)
  | parse (path : Path)
  deriving DecidableEq, Repr, Inhabited

namespace LoadFault

/-- What opens the description of a fault in a document. -/
def parseWords : String := "TOML parse error"

/-- The file that could not be loaded. -/
def path : LoadFault → Path
  | read path _ => path
  | parse path => path

/-- The text shown to the user. -/
def message : LoadFault → String
  | read path fault => "failed to read config at " ++ path.toString ++ ": " ++ fault.message
  | parse path => "failed to parse config at " ++ path.toString ++ ": " ++ parseWords

/-- The texts of the faults behind this one. -/
def causes : LoadFault → List String
  | read _ fault => fault.message :: fault.causes
  | parse _ => [parseWords]

end LoadFault

def workspaceFileName : String := ".reds.toml"

def userFile (home : Path) : Path :=
  (home.child ".reds").child "config.toml"

def loadFile (d : Disk) (p : Path) : Except LoadFault (Option Layer) :=
  match d.readText p with
  | .error fault => if fault.kind = .notFound then .ok none else .error (.read p fault)
  | .ok text =>
    match parse? text with
    | some layer => .ok (some layer)
    | none => .error (.parse p)

/-- The layer in a file that may be missing or not even be looked for. -/
def loadOptional (d : Disk) (file : Option Path) : Except LoadFault Layer :=
  match file with
  | none => .ok .empty
  | some p =>
    match loadFile d p with
    | .ok layer => .ok (layer.getD .empty)
    | .error fault => .error fault

/-- The user's file with the file of a workspace on top. -/
def load (d : Disk) (user workspace : Option Path) : Except LoadFault Layer :=
  match loadOptional d user with
  | .error fault => .error fault
  | .ok lower =>
    match loadOptional d (workspace.map fun root => root.child workspaceFileName) with
    | .error fault => .error fault
    | .ok top => .ok (lower.overlay top)

end ModBench.Config
