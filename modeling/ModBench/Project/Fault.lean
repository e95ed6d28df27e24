import ModBench.Files.Fault

/-!
Why an operation on a mod project fails.
-/

set_option autoImplicit false
set_option relaxedAutoImplicit false

namespace ModBench

/-- What was being done when the file system refused. -/
inductive ProjectAction where
  | useWorkspace
  | create
  | takeName
  | copy
  | delete
  | createArchive
  | read
  | write
  deriving DecidableEq, Repr, Inhabited

/-- The action in words, as the beginning of a sentence that goes on with a path. -/
def ProjectAction.words : ProjectAction → String
  | useWorkspace => "cannot use workspace"
  | create => "failed to create"
  | takeName => "not a file"
  | copy => "failed to copy"
  | delete => "failed to delete"
  | createArchive => "failed to create archive in"
  | read => "failed to read"
  | write => "failed to write"

/-- Why an operation on a mod project failed. -/
inductive ProjectFault where
  /-- The file system refused. -/
  | files (action : ProjectAction) (path : Path) (fault : Files.Fault)
  /-- A script does not lie where a mod has its scripts. -/
  | invalidLayout (script : Path)
  /-- Every name for a new mod is taken. -/
  | modExists (path : Path)
  /-- An entry could not be put into an archive. -/
  | archive (path : Path) (fault : Files.Fault)
  deriving DecidableEq, Repr, Inhabited

namespace ProjectFault

/-- What is said of an archive that could not be written. -/
def archiveWords : String := "i/o error"

/-- The text shown to the user. -/
def message : ProjectFault → String
  | files action path fault => action.words ++ " " ++ path.toString ++ ": " ++ fault.message
  | invalidLayout script =>
    "redscript files need to be nested like so: modname/r6/scripts/file.reds (got " ++
      script.toString ++ ")"
  | modExists path =>
    "mod already exists: " ++ path.toString ++ " and its numbered alternatives are taken"
  | archive path _ => "failed to write archive " ++ path.toString ++ ": " ++ archiveWords

/-- The texts of the faults behind this one, the nearest first. -/
def causes : ProjectFault → List String
  | files _ _ fault => fault.message :: fault.causes
  | archive _ fault => archiveWords :: fault.message :: fault.causes
  | _ => []

end ProjectFault

end ModBench
