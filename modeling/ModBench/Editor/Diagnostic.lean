import ModBench.Diagnostic.Record
import ModBench.Json

/-!
Diagnostics as editors take them: positions count from zero, and the marked range ends a fixed
number of columns after the reported column, for editors to cut at the end of the line.
-/

set_option autoImplicit false
set_option relaxedAutoImplicit false

namespace ModBench.Editor

/-- A position counted from zero. -/
structure Position where
  line : UInt32
  character : UInt32
  deriving DecidableEq, Repr, Inhabited

structure Diagnostic where
  start : Position
  stop : Position
  /-- One for an error, two for a warning, three for an information. -/
  severity : Nat
  message : String
  deriving DecidableEq, Repr, Inhabited

/-- How far the marked range goes past the reported column. -/
def rangeWidth : Nat := 100

/-- The name under which the diagnostics are shown. -/
def diagnosticSource : String := "redscript"

/-- A column moved to the right, no further than 32 bits allow. -/
def widen (column : UInt32) : UInt32 :=
  UInt32.ofNat (min (column.toNat + rangeWidth) 0xffffffff)

/-- The editor's form of a record. -/
def Diagnostic.ofRecord (r : Record) : Diagnostic :=
  let (line, column) := r.zeroBased
  ⟨⟨line, column⟩, ⟨line, widen r.column⟩, r.severity.editorNumber, r.message⟩

def Position.toJson (p : Position) : Json :=
  .object [("line", .number p.line.toNat), ("character", .number p.character.toNat)]

def Diagnostic.toJson (d : Diagnostic) : Json :=
  .object
    [("range", .object [("start", d.start.toJson), ("end", d.stop.toJson)]),
      ("severity", .number d.severity), ("source", .string diagnosticSource),
      ("message", .string d.message)]

end ModBench.Editor
