import ModBench.Files.Directories
import ModBench.Project.Fault

/-!
Deployed scripts.  A script is deployed as a copy under its own name in the game's folder for
scripts, and taken back by deleting that copy.
-/

set_option autoImplicit false
set_option relaxedAutoImplicit false

namespace ModBench

open Files (Disk)

def deployedAt (source scripts : Path) : Except ProjectFault Path :=
  match source.fileName? with
  | some name => .ok (scripts.entry name)
  | none => .error (.files .takeName source .senseless)

/-- Copy a script into the folder for scripts, which is made where it is missing. -/
def deploy (d : Disk) (source scripts : Path) : Except ProjectFault Path × Disk :=
  match deployedAt source scripts with
  | .error fault => (.error fault, d)
  | .ok destination =>
    match d.makeDirectories scripts with
    | (.error fault, d) => (.error (.files .create scripts fault), d)
    | (.ok (), d) =>
      match d.copy source destination with
      | .error fault => (.error (.files .copy source fault), d)
      | .ok d => (.ok destination, d)

/-- What became of a deployed copy. -/
inductive Undeployed where
  | removed (path : Path)
  | notDeployed (path : Path)
  deriving DecidableEq, Repr, Inhabited

/-- Delete the deployed copy of a script, if there is one. -/
def undeploy (d : Disk) (source scripts : Path) : Except ProjectFault Undeployed × Disk :=
  match deployedAt source scripts with
  | .error fault => (.error fault, d)
  | .ok destination =>
    match d.removeFile destination with
    | .ok d => (.ok (.removed destination), d)
    | .error fault =>
      if fault.kind = .notFound then (.ok (.notDeployed destination), d)
      else (.error (.files .delete destination fault), d)

end ModBench
