import ModBench.Path

/-!
Faults of file operations.  Some come from the system with a number and a text of their own, some
are known by their kind only, and some carry a text made by the operation.
-/

set_option autoImplicit false
set_option relaxedAutoImplicit false

namespace ModBench.Files

/-- The sorts of faults that callers tell apart. -/
inductive FaultKind where
  | notFound
  | permissionDenied
  | alreadyExists
  | invalidInput
  | invalidData
  | notADirectory
  | isADirectory
  | directoryNotEmpty
  | invalidFilename
  | filesystemLoop
  deriving DecidableEq, Repr, Inhabited

/-- Why the system refuses an operation. -/
inductive SystemFault where
  | notPermitted
  | notFound
  | permissionDenied
  | alreadyExists
  | notADirectory
  | isADirectory
  | nameTooLong
  | notEmpty
  | tooManyLinks
  deriving DecidableEq, Repr, Inhabited

namespace SystemFault

def number : SystemFault → Nat
  | notPermitted => 1
  | notFound => 2
  | permissionDenied => 13
  | alreadyExists => 17
  | notADirectory => 20
  | isADirectory => 21
  | nameTooLong => 36
  | notEmpty => 39
  | tooManyLinks => 40

def words : SystemFault → String
  | notPermitted => "Operation not permitted"
  | notFound => "No such file or directory"
  | permissionDenied => "Permission denied"
  | alreadyExists => "File exists"
  | notADirectory => "Not a directory"
  | isADirectory => "Is a directory"
  | nameTooLong => "File name too long"
  | notEmpty => "Directory not empty"
  | tooManyLinks => "Too many levels of symbolic links"

def kind : SystemFault → FaultKind
  | notPermitted => .permissionDenied
  | notFound => .notFound
  | permissionDenied => .permissionDenied
  | alreadyExists => .alreadyExists
  | notADirectory => .notADirectory
  | isADirectory => .isADirectory
  | nameTooLong => .invalidFilename
  | notEmpty => .directoryNotEmpty
  | tooManyLinks => .filesystemLoop

/-- The words with the number. -/
def message (f : SystemFault) : String :=
  f.words ++ " (os error " ++ toString f.number ++ ")"

end SystemFault

/-- Why a file operation failed. -/
inductive Fault where
  | system (fault : SystemFault)
  /-- What was asked for is not there. -/
  | missing
  /-- What was asked for makes no sense. -/
  | senseless
  | told (kind : FaultKind) (words : String)
  /-- The system refused at a path that a search through a tree had come to. -/
  | onPath (path : Path) (fault : SystemFault)
  deriving DecidableEq, Repr, Inhabited

namespace Fault

def kind : Fault → FaultKind
  | system fault => fault.kind
  | missing => .notFound
  | senseless => .invalidInput
  | told kind _ => kind
  | onPath _ fault => fault.kind

/-- The text shown to the user. -/
def message : Fault → String
  | system fault => fault.message
  | missing => "entity not found"
  | senseless => "invalid input parameter"
  | told _ words => words
  | onPath path fault => "IO error for operation on " ++ path.toString ++ ": " ++ fault.message

/-- The texts of the faults behind this one. -/
def causes : Fault → List String
  | onPath _ fault => [fault.message]
  | _ => []

/-- A path with a NUL character in it cannot be handed to the system. -/
def nulInPath : Fault :=
  told .invalidInput "file name contained an unexpected NUL byte"

def notText : Fault :=
  told .invalidData "stream did not contain valid UTF-8"

/-- A copy was asked for of what is no regular file. -/
def notRegular : Fault :=
  told .invalidInput "the source path is neither a regular file nor a symlink to a regular file"

end Fault

end ModBench.Files
