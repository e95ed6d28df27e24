import ModBench.Diagnostic.Snapshot
import ModBench.Editor.Diagnostic
import ModBench.Lint.Manager
import ModBench.Url

/-!
Messages from the server to the editor: the diagnostics of a file, and notices that are shown to the
user and kept in the editor's log.
-/

set_option autoImplicit false
set_option relaxedAutoImplicit false

namespace ModBench.Editor

inductive Message where
  /-- All diagnostics of a file, which take the place of those sent before. -/
  | publish (uri : String) (diagnostics : List Diagnostic)
  /-- A text to show to the user. -/
  | display (level : NoticeLevel) (text : String)
  | log (level : NoticeLevel) (text : String)
  deriving DecidableEq, Repr, Inhabited

def levelNumber : NoticeLevel → Nat
  | .error => 1
  | .warning => 2
  | .info => 3

namespace Message

def method : Message → String
  | publish _ _ => "textDocument/publishDiagnostics"
  | display _ _ => "window/showMessage"
  | log _ _ => "window/logMessage"

def noticeParams (level : NoticeLevel) (text : String) : Json :=
  .object [("type", .number (levelNumber level)), ("message", .string text)]

def params : Message → Json
  | publish uri diagnostics =>
    .object [("uri", .string uri), ("diagnostics", .array (diagnostics.map Diagnostic.toJson))]
  | display level text => noticeParams level text
  | log level text => noticeParams level text

def toJson (m : Message) : Json :=
  .object [("jsonrpc", .string "2.0"), ("method", .string m.method), ("params", m.params)]

/-- The message that gives a file's present records; none for a path without a URL. -/
def ofFile? (f : FileRecords) : Option Message :=
  (Url.ofPath? f.1).map fun url => publish url.text (f.2.map Diagnostic.ofRecord)

def ofNotice (n : Notice) : List Message :=
  [display n.level n.text, log n.level n.text]

end Message

end ModBench.Editor
