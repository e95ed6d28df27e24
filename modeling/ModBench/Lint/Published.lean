import ModBench.Diagnostic.Snapshot
import ModBench.Lint.Run

/-!
The published set: for each file the records of the latest lint pass.  Each pass replaces the whole
set.  Beside it stands the set of paths whose list may differ from what was last taken, which feeds
hosts that show the diagnostics.
-/

set_option autoImplicit false
set_option relaxedAutoImplicit false

namespace ModBench

abbrev RecordMap := PathMap (List Record)

def groupRecords (base : Path) (records : List Record) : RecordMap :=
  records.foldl
    (fun groups r => groups.upsert (resolveFile base r) fun old => old.getD [] ++ [r]) []

/-- The published records and the paths changed since the last taking. -/
structure PublishedSet where
  files : RecordMap := []
  changed : PathMap Unit := []
  deriving DecidableEq, Repr, Inhabited

namespace PublishedSet

/-- Nothing published, nothing changed. -/
def empty : PublishedSet := {}

def mark (p : Path) (marks : PathMap Unit) : PathMap Unit :=
  marks.insert p ()

def markDifferent (one other : RecordMap) (marks : PathMap Unit) : PathMap Unit :=
  one.foldl (fun marks (p, items) => if other.find? p = some items then marks else mark p marks)
    marks

/-- Replace everything by the records of a pass over `base`. -/
def publish (s : PublishedSet) (records : List Record) (base : Path) : PublishedSet :=
  let grouped := groupRecords base records
  { files := grouped,
    changed := markDifferent grouped s.files (markDifferent s.files grouped s.changed) }

/-- Take one file out. -/
def clear (s : PublishedSet) (p : Path) : PublishedSet :=
  if s.files.contains p then { files := s.files.erase p, changed := mark p s.changed } else s

/-- Take every file out. -/
def clearAll (s : PublishedSet) : PublishedSet :=
  { files := [], changed := s.files.foldl (fun marks (p, _) => mark p marks) s.changed }

def get? (s : PublishedSet) (p : Path) : Option (List Record) :=
  s.files.find? p

/-- The published files as they are shown. -/
def snapshot (s : PublishedSet) : Snapshot :=
  Snapshot.ofFiles s.files

/-- The changed paths with their present records, an empty list for a path that has none. -/
def changes (s : PublishedSet) : List FileRecords :=
  s.changed.map fun (p, _) => (p, (s.get? p).getD [])

def takeChanges (s : PublishedSet) : List FileRecords × PublishedSet :=
  (s.changes, { s with changed := [] })

end PublishedSet

end ModBench
