import ModBench.Json
import ModBench.Text.Lines

/-!
Diagnostic records: one problem that the compiler reported, with its position counted from one.
The text form of a record has the message's first line on the line of the position and indents the
others; as JSON a record is an object with its five fields.
-/

set_option autoImplicit false
set_option relaxedAutoImplicit false

namespace ModBench

/-- How bad a reported problem is. -/
inductive Severity where
  | error
  | warning
  | info
  deriving DecidableEq, Repr, Inhabited

namespace Severity

def ofTag? (tag : String) : Option Severity :=
  if tag = "ERROR" then some error
  else if tag = "WARN" then some warning
  else if tag = "INFO" then some info
  else none

def label : Severity → String
  | error => "error"
  | warning => "warning"
  | info => "info"

def isError : Severity → Bool
  | error => true
  | _ => false

def editorNumber : Severity → Nat
  | error => 1
  | warning => 2
  | info => 3

end Severity

/-- One problem reported by the compiler; line and column count from one. -/
structure Record where
  /-- The file as the compiler printed it. -/
  file : String
  line : UInt32
  column : UInt32
  message : String
  severity : Severity
  deriving DecidableEq, Repr, Inhabited

namespace Record

/-- One less, and zero for zero. -/
def before (n : UInt32) : UInt32 :=
  if n = 0 then 0 else n - 1

/-- Line and column counted from zero. -/
def zeroBased (r : Record) : UInt32 × UInt32 :=
  (before r.line, before r.column)

/-- The position and severity that open a record's text form. -/
def headline (r : Record) : String :=
  r.file ++ ":" ++ toString r.line.toNat ++ ":" ++ toString r.column.toNat ++ ": " ++
    r.severity.label ++ ": "

/-- Message lines after the first, each on its own line with four spaces in front. -/
def continuation (lines : List String) : String :=
  String.join (lines.map fun line => "\n    " ++ line)

/-- The record with the message's first line behind its position and the others below. -/
def text (r : Record) : String :=
  match Text.linesOf r.message with
  | [] => r.headline
  | first :: rest => r.headline ++ first ++ continuation rest

def toJson (r : Record) : Json :=
  .object
    [("file", .string r.file), ("line", .number r.line.toNat), ("column", .number r.column.toNat),
      ("message", .string r.message), ("severity", .string r.severity.label)]

end Record

end ModBench
