import ModBench.Files.Read

/-!
Changing single files.  An operation that fails leaves the disk as it was.

All files are the caller's own: a copy onto another's file, which is emptied before its permissions
are set and refused, is left out, and so are a disk that runs full and files with several names.
-/

set_option autoImplicit false
set_option relaxedAutoImplicit false

namespace ModBench.Files.Disk

def withTree (d : Disk) (t : Tree) : Disk :=
  { d with tree := t }

def put (d : Disk) (place : Place) (node : Node) : Disk :=
  d.withTree (d.tree.put place node)

/-- The place of a file that is made where there is none. -/
def openToWrite (d : Disk) (p : Path) : Except Fault Place :=
  if isSpellable p then
    match d.walkSteps true p (stepsOf p) with
    | .error fault => .error (.system fault)
    | .ok (.vacant directory name) =>
      if endsInSlash p then .error (.system .isADirectory) else .ok (directory ++ [name])
    | .ok (.node place) =>
      if endsInSlash p || d.tree.find? place == some .directory then .error (.system .isADirectory)
      else if d.tree.isReadOnly place then .error (.system .permissionDenied)
      else .ok place
  else .error Fault.nulInPath

/-- Write a file anew, making it where there is none. -/
def write (d : Disk) (p : Path) (data : List UInt8) : Except Fault Disk :=
  match d.openToWrite p with
  | .ok place => .ok (d.put place (.file (.bytes data)))
  | .error fault => .error fault

/-- Open a file to add to it, making it where there is none. -/
def touch (d : Disk) (p : Path) : Except Fault Disk :=
  match d.openToWrite p with
  | .error fault => .error fault
  | .ok place =>
    match d.tree.find? place with
    | some _ => .ok d
    | none => .ok (d.put place (.file Content.empty))

/-- Copy a regular file.  The destination is emptied before the source is read, and becomes
read-only with it. -/
def copy (d : Disk) (source destination : Path) : Except Fault Disk :=
  match d.openToRead source with
  | .error fault => .error fault
  | .ok place =>
    match d.tree.find? place with
    | some (.file _) =>
      match d.openToWrite destination with
      | .error fault => .error fault
      | .ok target =>
        let emptied := d.put target (.file Content.empty)
        match emptied.contentAt place with
        | .ok content => .ok (emptied.put target (.file content))
        | .error fault => .error fault
    | _ => .error Fault.notRegular

/-- Take away a file or a link. -/
def removeFile (d : Disk) (p : Path) : Except Fault Disk :=
  if isSpellable p then
    match d.walkSteps false p (stepsOf p) with
    | .error fault => .error (.system fault)
    | .ok (.vacant _ _) => .error (.system .notFound)
    | .ok (.node place) =>
      let isDirectory := d.tree.find? place == some .directory
      if endsInSlash p then .error (.system (if isDirectory then .isADirectory else .notADirectory))
      else if d.pinned.contains place then .error (.system .notPermitted)
      else if isDirectory then .error (.system .isADirectory)
      else .ok (d.withTree (d.tree.delete place))
  else .error Fault.nulInPath

/-- Whether a move to a place that is taken can be made. -/
def canReplace (t : Tree) (source target : Place) : Except SystemFault Unit :=
  let sourceIsDirectory := t.find? source == some .directory
  let targetIsDirectory := t.find? target == some .directory
  if sourceIsDirectory && !targetIsDirectory then .error .notADirectory
  else if !sourceIsDirectory && targetIsDirectory then .error .isADirectory
  else if targetIsDirectory && t.hasBelow target then .error .notEmpty
  else .ok ()

/-- Move a place, with all below it, to a path; what stands there is replaced. -/
def renamePlace (d : Disk) (source : Place) (destination : Path) : Except Fault Disk :=
  if isSpellable destination then
    match d.walkSteps false destination (stepsOf destination) with
    | .error fault => .error (.system fault)
    | .ok (.vacant directory name) =>
      if d.pinned.contains source || d.pinned.contains (directory ++ [name]) then
        .error (.system .notPermitted)
      else .ok (d.withTree (d.tree.move source (directory ++ [name])))
    | .ok (.node target) =>
      if target = source then .ok d
      else if d.pinned.contains source || d.pinned.contains target then
        .error (.system .notPermitted)
      else
        match canReplace d.tree source target with
        | .error fault => .error (.system fault)
        | .ok () => .ok (d.withTree ((d.tree.delete target).move source target))
  else .error Fault.nulInPath

/-- Move what stands at the end of a path, a link itself and not what it leads to. -/
def rename (d : Disk) (source destination : Path) : Except Fault Disk :=
  if isSpellable source then
    match d.walkSteps false source (stepsOf source) with
    | .error fault => .error (.system fault)
    | .ok (.vacant _ _) => .error (.system .notFound)
    | .ok (.node place) => d.renamePlace place destination
  else .error Fault.nulInPath

/-- Take away what stands at the end of a path with all below it; nothing there is fine. -/
def removeAll (d : Disk) (p : Path) : Disk :=
  match d.walkSteps false p (stepsOf p) with
  | .ok (.node place) => if place = [] then d else d.withTree (d.tree.deleteAll place)
  | _ => d

def makeLink (d : Disk) (p target : Path) : Except Fault Disk :=
  if isSpellable p && isSpellable target then
    match d.walkSteps false p (stepsOf p) with
    | .error fault => .error (.system fault)
    | .ok (.node _) => .error (.system .alreadyExists)
    | .ok (.vacant directory name) => .ok (d.put (directory ++ [name]) (.link target))
  else .error Fault.nulInPath

end ModBench.Files.Disk
