import ModBench.Files.Walk

/-!
Reading files through links.
-/

set_option autoImplicit false
set_option relaxedAutoImplicit false

namespace ModBench.Files.Disk

/-- The place of a file to read, which may still be a directory. -/
def openToRead (d : Disk) (p : Path) : Except Fault Place :=
  if isSpellable p then
    match d.locate p with
    | .ok place => .ok place
    | .error fault => .error (.system fault)
  else .error Fault.nulInPath

/-- What a file holds. -/
def contentAt (d : Disk) (place : Place) : Except Fault Content :=
  match d.tree.find? place with
  | some (.file content) => .ok content
  | some .directory => .error (.system .isADirectory)
  | _ => .error (.system .notFound)

/-- What the file at the end of a path holds. -/
def read (d : Disk) (p : Path) : Except Fault Content :=
  match d.openToRead p with
  | .ok place => d.contentAt place
  | .error fault => .error fault

def readText (d : Disk) (p : Path) : Except Fault String :=
  match d.read p with
  | .error fault => .error fault
  | .ok content =>
    match Text.decode? content.data with
    | some text => .ok text
    | none => .error Fault.notText

end ModBench.Files.Disk
