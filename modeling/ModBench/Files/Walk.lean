import ModBench.Files.Fault
import ModBench.Files.Tree

/-!
Walks: from a path to a place.  A walk takes the names of a path one after the other; a link on the
way stands for the path that it holds, and so does one at the end if it is followed.  The number of
links on one walk is bounded.
-/

set_option autoImplicit false
set_option relaxedAutoImplicit false

namespace ModBench.Files

/-- Where a walk ends. -/
inductive Landing where
  /-- At something that is there. -/
  | node (place : Place)
  | vacant (directory : Place) (name : Name)
  deriving DecidableEq, Repr, Inhabited

/-- A tree with the place from which paths without a root are walked. -/
structure Disk where
  tree : Tree := []
  cwd : Place := []
  /-- Where the system lets nothing be moved to or taken away, as it does with what is in use, and
  with what belongs to others in a directory that all may write to. -/
  pinned : List Place := []
  deriving DecidableEq, Repr, Inhabited

/-- How many links one walk may follow. -/
def maxLinks : Nat := 40

/-- The longest name, in bytes. -/
def maxNameLength : Nat := 255

/-- The length from which on a path is too long, in bytes. -/
def maxPathLength : Nat := 4096

/-- The names of a path, those of length zero left out. -/
def stepsOf (p : Path) : List Name :=
  (Text.split slash p.bytes).filter fun name => !name.isEmpty

def endsInSlash (p : Path) : Bool :=
  p.bytes.getLast? == some slash

/-- The steps of a path whose end is looked up: a slash at the end asks for a directory. -/
def lookupSteps (p : Path) : List Name :=
  if endsInSlash p then stepsOf p ++ [dotName] else stepsOf p

namespace Tree

/-- Walk on from a place.  At a link that is followed the walk goes on as `atLink` says, for the
place of the link's directory and the steps from there; one at the end is followed only if `follow`
says so. -/
def walkUpTo (t : Tree) (follow : Bool) (atLink : Place → List Name → Except SystemFault Landing)
    (here : Place) : List Name → Except SystemFault Landing
  | [] => .ok (.node here)
  | name :: rest =>
    if t.find? here ≠ some .directory then .error .notADirectory
    else if name = dotName then walkUpTo t follow atLink here rest
    else if name = dotsName then walkUpTo t follow atLink here.dropLast rest
    else if maxNameLength < name.length then .error .nameTooLong
    else
      match t.find? (here ++ [name]) with
      | none => if rest = [] then .ok (.vacant here name) else .error .notFound
      | some (.link target) =>
        if rest = [] ∧ follow = false then .ok (.node (here ++ [name]))
        else atLink (if target.isAbsolute then [] else here) (lookupSteps target ++ rest)
      | some _ => walkUpTo t follow atLink (here ++ [name]) rest

/-- Walk on from a place; `links` more links may be followed. -/
def walk (t : Tree) (follow : Bool) : Nat → Place → List Name → Except SystemFault Landing
  | 0 => walkUpTo t follow fun _ _ => .error .tooManyLinks
  | links + 1 => walkUpTo t follow (walk t follow links)

end Tree

namespace Disk

/-- Whether a path can be handed to the system at all. -/
def isSpellable (p : Path) : Bool :=
  !p.bytes.contains 0

def walkSteps (d : Disk) (follow : Bool) (p : Path) (steps : List Name) :
    Except SystemFault Landing :=
  if p.bytes.isEmpty then .error .notFound
  else if maxPathLength ≤ p.bytes.length then .error .nameTooLong
  else d.tree.walk follow maxLinks (if p.isAbsolute then [] else d.cwd) steps

def walk (d : Disk) (follow : Bool) (p : Path) : Except SystemFault Landing :=
  d.walkSteps follow p (lookupSteps p)

/-- The place at the end of a path, links followed. -/
def locate (d : Disk) (p : Path) : Except SystemFault Place :=
  match d.walk true p with
  | .ok (.node place) => .ok place
  | .ok (.vacant _ _) => .error .notFound
  | .error fault => .error fault

/-- What stands at the end of a path, links followed; none where nothing does or the walk fails. -/
def status? (d : Disk) (p : Path) : Option Node :=
  if isSpellable p then
    match d.locate p with
    | .ok place => d.tree.find? place
    | .error _ => none
  else none

/-- Whether something stands at the end of a path. -/
def exists? (d : Disk) (p : Path) : Bool :=
  (d.status? p).isSome

def isDirectory (d : Disk) (p : Path) : Bool :=
  d.status? p == some .directory

def pathOf (place : Place) : Path :=
  ⟨if place = [] then [slash] else place.flatMap fun name => slash :: name⟩

/-- The directory from which paths without a root are walked. -/
def currentDirectory (d : Disk) : Path :=
  pathOf d.cwd

end Disk

end ModBench.Files
