import ModBench.Files.Write

/-!
Making directories, alone or with all that are missing on the way to them.
-/

set_option autoImplicit false
set_option relaxedAutoImplicit false

namespace ModBench.Files.Disk

def makeDirectory (d : Disk) (p : Path) : Except Fault Disk :=
  if isSpellable p then
    match d.walkSteps false p (stepsOf p) with
    | .error fault => .error (.system fault)
    | .ok (.node _) => .error (.system .alreadyExists)
    | .ok (.vacant directory name) => .ok (d.put (directory ++ [name]) .directory)
  else .error Fault.nulInPath

/-- A path and the paths that it is below, the nearest first, as far as the bound allows. -/
def ancestors : Nat → Path → List Path
  | 0, _ => []
  | bound + 1, p =>
    p :: match p.parent? with
      | some parent => ancestors bound parent
      | none => []

/-- Whether a directory was asked for that is there already. -/
def isThere (d : Disk) (p : Path) (fault : Fault) : Bool :=
  fault.kind == .alreadyExists && d.isDirectory p

/-- Make the first of some directories, each inside the next one, that can be made: those before it
are still to be made. -/
def climb (d : Disk) : List Path → List Path → Except Fault (List Path) × Disk
  | [], missing => (.ok missing, d)
  | p :: rest, missing =>
    if p.components.isEmpty || p.parent?.isNone then (.ok missing, d)
    else
      match d.makeDirectory p with
      | .ok d => (.ok missing, d)
      | .error fault =>
        if fault.kind == .notFound then climb d rest (p :: missing)
        else if d.isThere p fault then (.ok missing, d)
        else (.error fault, d)

/-- Make directories one after the other; one that is there is fine. -/
def makeEach (d : Disk) : List Path → Except Fault Unit × Disk
  | [] => (.ok (), d)
  | p :: rest =>
    match d.makeDirectory p with
    | .ok d => makeEach d rest
    | .error fault => if d.isThere p fault then makeEach d rest else (.error fault, d)

def makeDirectories (d : Disk) (p : Path) : Except Fault Unit × Disk :=
  match d.climb (ancestors (p.bytes.length + 1) p) [] with
  | (.ok missing, d) => d.makeEach missing
  | (.error fault, d) => (.error fault, d)

end ModBench.Files.Disk
