import ModBench.Diagnostic.Record
import ModBench.PathMap

/-!
Snapshots of the published diagnostics: the files that have any, those with an error first, each
half in path order.
-/

set_option autoImplicit false
set_option relaxedAutoImplicit false

namespace ModBench

abbrev FileRecords := Path × List Record

/-- The published diagnostics in the order in which they are shown. -/
structure Snapshot where
  files : List FileRecords
  deriving DecidableEq, Repr, Inhabited

namespace Snapshot

def hasError (file : FileRecords) : Bool :=
  file.2.any fun r => r.severity.isError

/-- Whether the first file may stand before the second. -/
def precedes (a b : FileRecords) : Bool :=
  match hasError a, hasError b with
  | true, false => true
  | false, true => false
  | _, _ => a.1.compare b.1 != .gt

/-- The snapshot of the given files: empty lists are dropped, the rest is put in order. -/
def ofFiles (files : List FileRecords) : Snapshot :=
  ⟨(files.filter fun file => !file.2.isEmpty).mergeSort precedes⟩

def get? (s : Snapshot) (p : Path) : Option (List Record) :=
  (s.files.find? fun file => file.1.same p).map Prod.snd

def contains (s : Snapshot) (p : Path) : Bool :=
  (s.get? p).isSome

/-- Whether nothing is shown. -/
def isEmpty (s : Snapshot) : Bool :=
  s.files.isEmpty

/-- All records shown, file after file. -/
def records (s : Snapshot) : List Record :=
  s.files.flatMap Prod.snd

/-- The number of records of one severity. -/
def count (s : Snapshot) (severity : Severity) : Nat :=
  s.records.countP fun r => r.severity = severity

/-- The number of all records. -/
def total (s : Snapshot) : Nat :=
  s.records.length

end Snapshot

end ModBench
