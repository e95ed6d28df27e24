import ModBench.Files.Archive
import ModBench.Path

/-!
Trees of files.  A tree says what stands at each place below the root: a file, a directory or a
link.  Main statements: a place that is put in or taken out is seen so afterwards, and every other
place is seen as before.

Of a file's mode only the mark is kept by which it may not be written to.  Every file can be read,
and every directory can be searched and changed; owners, times and further names of a file are left
out.
-/

set_option autoImplicit false
set_option relaxedAutoImplicit false

namespace ModBench.Files

/-- A name in a directory, as a string of bytes. -/
abbrev Name := List UInt8

/-- The name by which a directory is in itself. -/
def dotName : Name := [dot]

/-- The name by which the directory above is in a directory. -/
def dotsName : Name := [dot, dot]

theorem dotsName_ne_dotName : dotsName ≠ dotName := by decide

abbrev Place := List Name

/-- What a file may be made of. -/
inductive Held where
  | bytes (data : List UInt8)
  | archive (entries : List ArchiveEntry)
  deriving DecidableEq, Repr, Inhabited

/-- What a file holds, and whether it may be read only. -/
structure Content where
  held : Held
  readOnly : Bool := false
  deriving DecidableEq, Repr, Inhabited

namespace Content

def bytes (data : List UInt8) : Content := ⟨.bytes data, false⟩

def archive (entries : List ArchiveEntry) : Content := ⟨.archive entries, false⟩

def empty : Content := bytes []

def data (c : Content) : List UInt8 :=
  match c.held with
  | .bytes data => data
  | .archive entries => Archive.encode entries

/-- The content of a text file. -/
def ofString (s : String) : Content :=
  bytes (Text.encodeString s)

end Content

/-- What stands at a place. -/
inductive Node where
  | file (content : Content)
  | directory
  | link (target : Path)
  deriving DecidableEq, Repr, Inhabited

/-- What stands where, each place once.  The root is a directory and not listed. -/
abbrev Tree := List (Place × Node)

namespace Tree

def empty : Tree := []

def find? (t : Tree) : Place → Option Node
  | [] => some .directory
  | place => (List.find? (fun e => e.1 == place) t).map Prod.snd

def delete (t : Tree) (place : Place) : Tree :=
  t.filter fun e => e.1 != place

def put (t : Tree) (place : Place) (node : Node) : Tree :=
  if place = [] then t
  else if t.any fun e => e.1 == place then
    t.map fun e => if e.1 == place then (e.1, node) else e
  else t ++ [(place, node)]

def deleteAll (t : Tree) (place : Place) : Tree :=
  t.filter fun e => !place.isPrefixOf e.1

/-- The place of a tree's entry once `source` and all below it have gone to `target`. -/
def moved (source target place : Place) : Place :=
  if source.isPrefixOf place then target ++ place.drop source.length else place

def move (t : Tree) (source target : Place) : Tree :=
  t.map fun e => (moved source target e.1, e.2)

/-- Whether a file stands at a place that may be read only. -/
def isReadOnly (t : Tree) (place : Place) : Bool :=
  match t.find? place with
  | some (.file content) => content.readOnly
  | _ => false

/-- Whether something stands directly or indirectly below a place. -/
def hasBelow (t : Tree) (place : Place) : Bool :=
  t.any fun e => place.isPrefixOf e.1 && e.1 != place

/-- The length of the longest place. -/
def height (t : Tree) : Nat :=
  t.foldr (fun e n => max e.1.length n) 0

/-- The name under which an entry stands in a directory. -/
def nameIn? (directory : Place) (e : Place × Node) : Option (Name × Node) :=
  if e.1.length = directory.length + 1 && directory.isPrefixOf e.1 then
    e.1.getLast?.map fun name => (name, e.2)
  else none

/-- Whether the first name may stand before the second. -/
def namePrecedes (a b : Name × Node) : Bool :=
  Component.compareBytes a.1 b.1 != .gt

def children (t : Tree) (directory : Place) : List (Name × Node) :=
  (t.filterMap (nameIn? directory)).mergeSort namePrecedes

theorem find?_delete_self (t : Tree) {place : Place} (h : place ≠ []) :
    (t.delete place).find? place = none := by
  cases place with
  | nil => exact absurd rfl h
  | cons a rest => simp [find?, delete, List.find?_filter]

theorem find?_delete_ne (t : Tree) {place other : Place} (h : other ≠ place) :
    (t.delete place).find? other = t.find? other := by
  cases other with
  | nil => rfl
  | cons a rest =>
    simp only [find?, delete, List.find?_filter]
    congr 1
    apply congrArg (fun p => List.find? p t)
    funext e
    by_cases he : e.1 = a :: rest
    · simp [he, h]
    · simp [he]

end Tree

end ModBench.Files
