import ModBench.Config.Expand
import ModBench.Files.Walk

/-!
Programs as functions: what a program is started with and what it leaves behind.  Results hold for
any programs; those of the shell are only there to run machines.
-/

set_option autoImplicit false
set_option relaxedAutoImplicit false

namespace ModBench.Host

open Files (Disk Place)

/-- What a program is started with. -/
structure ToolCall where
  /-- The name under which it was started. -/
  name : String
  args : List String := []
  environment : Environment := fun _ => none
  disk : Disk := {}
  /-- What it finds on its standard input. -/
  input : List UInt8 := []

/-- How a program ended, what it wrote and the disk that it left. -/
structure ToolResult where
  stdout : List UInt8 := []
  stderr : List UInt8 := []
  /-- The exit status; none after a signal. -/
  status : Option Nat := some 0
  /-- The number of the signal that ended it, if one did. -/
  signal : Nat := 0
  disk : Disk
  /-- What it left of its input. -/
  unread : List UInt8 := []
  deriving DecidableEq, Repr, Inhabited

/-- A program. -/
abbrev Tool := ToolCall → ToolResult

/-- Programs by their names. -/
abbrev Toolbox := String → Option Tool

/-- The directories in which the programs of the system lie. -/
def toolDirectories : List Place :=
  [["usr", "bin"], ["bin"]].map fun place => place.map Text.encodeString

def Toolbox.at? (toolbox : Toolbox) (place : Place) : Option Tool :=
  match place.getLast? with
  | some name =>
    if toolDirectories.contains place.dropLast then (Text.decode? name).bind toolbox else none
  | none => none

namespace ToolCall

/-- The end of a program that changed nothing and left its input alone. -/
def ends (c : ToolCall) (status : Nat) : ToolResult :=
  { status := some status, disk := c.disk, unread := c.input }

/-- The end of a program that wrote some bytes. -/
def writes (c : ToolCall) (bytes : List UInt8) : ToolResult :=
  { c.ends 0 with stdout := bytes }

/-- The end of a program that wrote a text. -/
def prints (c : ToolCall) (text : String) : ToolResult :=
  c.writes (Text.encodeString text)

/-- A complaint under the program's own name. -/
def complaint (c : ToolCall) (words : String) : List UInt8 :=
  Text.encodeString (c.name ++ ": " ++ words ++ "\n")

/-- The end of a program that complains. -/
def complains (c : ToolCall) (words : String) (status : Nat) : ToolResult :=
  { c.ends status with stderr := c.complaint words }

end ToolCall

end ModBench.Host
