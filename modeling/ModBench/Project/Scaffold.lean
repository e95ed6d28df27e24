import ModBench.Files.Directories
import ModBench.Project.Layout

/-!
New mods.  A new mod takes the first free name of a fixed list and has one empty script.
-/

set_option autoImplicit false
set_option relaxedAutoImplicit false

namespace ModBench

open Files (Disk)

namespace Scaffold

def modName : String := "myMod"

/-- How many numbered names are tried after it. -/
def alternatives : Nat := 10

/-- The names for a new mod, in the order in which they are tried. -/
def names : List String :=
  modName :: (List.range alternatives).map fun n => modName ++ "_" ++ toString n

/-- The folder for the scripts of a mod. -/
def scriptsDir (workspace : Path) (name : String) : Path :=
  ((workspace.child name).child ModLayout.r6Name).child ModLayout.scriptsName

/-- The folders for scripts of the mods that may be made. -/
def candidates (workspace : Path) : List Path :=
  names.map (scriptsDir workspace)

/-- The script of a new mod. -/
def mainScript (scripts : Path) : Path :=
  scripts.child "main.reds"

end Scaffold

open Scaffold in
/-- Make a mod in a workspace, under the first name whose folder for scripts does not exist. -/
def newMod (d : Disk) (workspace : Path) : Except ProjectFault Path × Disk :=
  if d.isDirectory workspace then
    match (candidates workspace).find? fun scripts => !d.exists? scripts with
    | none => (.error (.modExists (workspace.child modName)), d)
    | some scripts =>
      match d.makeDirectories scripts with
      | (.error fault, d) => (.error (.files .create scripts fault), d)
      | (.ok (), d) =>
        match d.write (mainScript scripts) [] with
        | .error fault => (.error (.files .create (mainScript scripts) fault), d)
        | .ok d => (.ok (mainScript scripts), d)
  else (.error (.files .useWorkspace workspace .missing), d)

end ModBench
