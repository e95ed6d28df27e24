import ModBench.Files.Directories
import ModBench.Project.Layout

/-!
Archives of mods.  The archive holds the folder `r6` of the mod's directory with all in it.  It is
written to a file of its own first, which then takes the archive's place.
-/

set_option autoImplicit false
set_option relaxedAutoImplicit false

namespace ModBench

open Files (Disk Content Node Name Place Tree ArchiveEntry)

namespace Package

/-- Something inside a folder: the names that lead to it, and what it is. -/
structure Found where
  names : List Name
  node : Node
  deriving DecidableEq, Repr, Inhabited

/-- All that stands below a place down to some depth, a directory before what is in it, names in
order.  A link is not followed. -/
def below (t : Tree) : Nat → Place → List Found
  | 0, _ => []
  | depth + 1, place =>
    (t.children place).flatMap fun (name, node) =>
      ⟨[name], node⟩ ::
        if node = .directory then
          (below t depth (place ++ [name])).map fun f => { f with names := name :: f.names }
        else []

def search (d : Disk) (folder : Path) : Except Files.Fault (List Found) :=
  match d.walk false folder with
  | .error fault => .error (.onPath folder fault)
  | .ok (.vacant _ _) => .error (.onPath folder .notFound)
  | .ok (.node place) =>
    match d.tree.find? place with
    | some .directory => .ok (⟨[], .directory⟩ :: below d.tree d.tree.height place)
    | some (.link target) =>
      match d.locate folder with
      | .ok _ => .ok [⟨[], .link target⟩]
      | .error fault => .error (.onPath folder fault)
    | some node => .ok [⟨[], node⟩]
    | none => .error (.onPath folder .notFound)

/-- A name as it is written in an archive, which holds text only.  Two names that are not text can
be written alike; that a writer of archives refuses the second entry of a name is left out. -/
def shown (name : Name) : List Char :=
  (Text.decodeLossy name).toList

/-- The name of an entry that stands below the folder. -/
def entryName (names : List Name) : List Char :=
  Text.join '/' (ModLayout.r6Name.toList :: names.map shown)

/-- The name of a directory's entry, which ends in a slash of either kind. -/
def directoryName (name : List Char) : List Char :=
  if name.getLast? = some '/' ∨ name.getLast? = some '\\' then name else name ++ ['/']

def pathBelow (folder : Path) (names : List Name) : Path :=
  names.foldl Path.entry folder

/-- The entry of something found.  A directory is opened for what is in it, a file for its bytes. -/
def entryOf (d : Disk) (l : ModLayout) (f : Found) : Except ProjectFault ArchiveEntry :=
  let name := entryName f.names
  let path := pathBelow l.r6Dir f.names
  if f.node = .directory then
    match d.locate path with
    | .error fault => .error (.files .read path (.onPath path fault))
    | .ok _ => .ok ⟨String.ofList (directoryName name), none⟩
  else
    match d.openToRead path with
    | .error fault => .error (.files .read path fault)
    | .ok place =>
      match d.contentAt place with
      | .error fault => .error (.archive l.archive fault)
      | .ok content => .ok ⟨String.ofList name, some content.data⟩

/-- The archive entries of some things found, up to the first that cannot be read. -/
def entriesOf (d : Disk) (l : ModLayout) : List Found → Except ProjectFault (List ArchiveEntry)
  | [] => .ok []
  | f :: rest =>
    match entryOf d l f with
    | .error fault => .error fault
    | .ok entry =>
      match entriesOf d l rest with
      | .error fault => .error fault
      | .ok entries => .ok (entry :: entries)

def entries (d : Disk) (l : ModLayout) : Except ProjectFault (List ArchiveEntry) :=
  match search d l.r6Dir with
  | .error fault => .error (.files .read l.r6Dir fault)
  | .ok found => entriesOf d l found

/-- The number of bytes in a place and in what its link leads to. -/
def writtenLength : Place × Node → Nat
  | (place, .link target) => place.flatten.length + target.bytes.length
  | (place, _) => place.flatten.length

def writtenTotal (t : Tree) : Nat :=
  t.foldr (fun e n => writtenLength e + n) 0

/-- A name that is longer than a path and than every name and every link on a disk, and so is not in
use anywhere. -/
def freshName (d : Disk) (p : Path) : Name :=
  Text.encodeString ".tmp" ++
    List.replicate (p.bytes.length + writtenTotal d.tree + d.pinned.flatten.flatten.length) 0x5f

/-- A file with a name of its own in a directory. -/
structure Temporary where
  directory : Path
  name : Name
  deriving DecidableEq, Repr, Inhabited

/-- The length of the names of temporary files, in bytes. -/
def temporaryNameLength : Nat := 10

/-- The length of a temporary file's path, which starts at the root, in bytes. -/
def temporaryPathLength (d : Disk) (directory : Path) : Nat :=
  (d.currentDirectory.join directory).bytes.length + 1 + temporaryNameLength

/-- Where a temporary file is: its directory is looked for anew. -/
def Temporary.place (d : Disk) (temporary : Temporary) : Except Files.SystemFault Place :=
  match d.walkSteps true temporary.directory
      (Files.stepsOf temporary.directory ++ [Files.dotName]) with
  | .ok (.node place) => .ok (place ++ [temporary.name])
  | .ok (.vacant _ _) => .error .notFound
  | .error fault => .error fault

/-- Make a temporary file in a directory. -/
def openTemporary (d : Disk) (directory : Path) : Except Files.Fault (Temporary × Place) :=
  let temporary : Temporary := ⟨directory, freshName d directory⟩
  if Disk.isSpellable directory then
    if Files.maxPathLength ≤ temporaryPathLength d directory then .error (.system .nameTooLong)
    else
      match temporary.place d with
      | .ok place => .ok (temporary, place)
      | .error fault => .error (.system fault)
  else .error Files.Fault.nulInPath

/-- Take a temporary file away, if it is still found. -/
def discard (d : Disk) (temporary : Temporary) : Disk :=
  match temporary.place d with
  | .ok place => d.withTree (d.tree.delete place)
  | .error _ => d

/-- Move a temporary file to a path. -/
def settle (d : Disk) (temporary : Temporary) (destination : Path) : Except Files.Fault Disk :=
  match temporary.place d with
  | .error fault => .error (.system fault)
  | .ok place =>
    match d.tree.find? place with
    | none => .error (.system .notFound)
    | some _ => d.renamePlace place destination

/-- The disk after an operation, or as it was if the operation failed. -/
def attempt (d : Disk) (result : Except Files.Fault Disk) : Disk :=
  match result with
  | .ok d => d
  | .error _ => d

/-- Move what is in the archive's way aside and put the finished file there. -/
def replace (d : Disk) (l : ModLayout) (temporary : Temporary) :
    Except Files.Fault Unit × Disk :=
  let d := attempt d (d.removeFile l.backup)
  match d.rename l.archive l.backup with
  | .error fault => (.error fault, discard d temporary)
  | .ok d =>
    match settle d temporary l.archive with
    | .error fault => (.error fault, discard (attempt d (d.rename l.backup l.archive)) temporary)
    | .ok d => (.ok (), attempt d (d.removeFile l.backup))

/-- Put a finished file in the archive's place. -/
def persist (d : Disk) (l : ModLayout) (temporary : Temporary) :
    Except Files.Fault Unit × Disk :=
  match settle d temporary l.archive with
  | .ok d => (.ok (), d)
  | .error fault =>
    if d.exists? l.archive then replace d l temporary else (.error fault, discard d temporary)

end Package

open Package in
/-- Write the archive of the mod that a script belongs to. -/
def packageMod (d : Disk) (script : Path) : Except ProjectFault Path × Disk :=
  match ModLayout.ofScript script with
  | .error fault => (.error fault, d)
  | .ok l =>
    match openTemporary d l.modDir with
    | .error fault => (.error (.files .createArchive l.modDir fault), d)
    | .ok (temporary, place) =>
      let d := d.put place (.file Content.empty)
      match entries d l with
      | .error fault => (.error fault, discard d temporary)
      | .ok entries =>
        match persist (d.put place (.file (.archive entries))) l temporary with
        | (.error fault, d) => (.error (.files .write l.archive fault), d)
        | (.ok (), d) => (.ok l.archive, d)

end ModBench
