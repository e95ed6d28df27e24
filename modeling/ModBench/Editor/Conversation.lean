import ModBench.Editor.Methods
import ModBench.Editor.Request
import ModBench.Editor.Session

/-!
The conversation with the editor: which requests are served at which stage, and what they do.
-/

set_option autoImplicit false
set_option relaxedAutoImplicit false

namespace ModBench.Editor

/-- What the server can do, as it tells the editor. -/
def capabilities : Json :=
  .object
    [("textDocumentSync",
      .object [("openClose", .bool true), ("change", .number 0), ("save", .bool true)])]

/-- How the server introduces itself. -/
def introduction (name version : String) : Json :=
  .object
    [("capabilities", capabilities),
      ("serverInfo", .object [("name", .string name), ("version", .string version)])]

abbrev Loader := Option Path → Except String LintSettings

namespace Session

variable {σ : Type}

def stageFault (s : Session σ) : RequestFault :=
  match s.stage with
  | .fresh => .tooEarly
  | _ => .invalidRequest

/-- Begin the conversation. -/
def opening (load : Loader) (s : Session σ) (r : Request) : Option Json × Session σ :=
  match s.stage, r.id with
  | .fresh, none => (none, s)
  | .fresh, some id =>
    match rootsFromParams r.params with
    | .error words => (some (response id (.error (.invalidParams words))), s)
    | .ok roots =>
      (some (response id (.ok (introduction "reds" "0.0.0"))),
        { s.configure roots (load roots.head?) with stage := .ready })
  | _, _ => (r.answer (.error .invalidRequest), s)

/-- End the linter's work.  From here on only the end of the conversation is expected. -/
def closing (s : Session σ) (r : Request) : Option Json × Session σ :=
  match s.stage with
  | .ready =>
    let s := { s with stage := .closing }
    match r.id, r.params with
    | none, _ => (none, s)
    | some id, some params =>
      (some (response id (.error (.invalidParams ("Unexpected params: " ++ params.compact)))), s)
    | some id, none => (some (response id (.ok .null)), s.shutdown)
  | _ => (r.answer (.error s.stageFault), s)

def aboutDocument (s : Session σ) (r : Request) (isWell : Bool) (f : Path → Session σ) :
    Session σ :=
  if isWell then
    match (documentUrl? r.params).bind Url.toPath? with
    | some p => f p
    | none => s
  else s

/-- What a notification does at the stage at which it is expected. -/
def notified (s : Session σ) (r : Request) : Session σ :=
  if r.method = "initialized" then
    match r.params with
    | some (.object _) => s.startTicker
    | _ => s
  else if r.method = "textDocument/didOpen" then s.aboutDocument r (isOpened r.params) s.see
  else if r.method = "textDocument/didSave" then
    s.aboutDocument r (hasOptionalText r.params) s.see
  else if r.method = "textDocument/didClose" then s.aboutDocument r true s.close
  else s

/-- Notifications that do something. -/
def servedNotifications : List String :=
  ["initialized", "textDocument/didOpen", "textDocument/didSave", "textDocument/didClose"]

/-- The answer to a method that is known but not served. -/
def refusal (r : Request) : RequestFault :=
  match r.params with
  | none => .invalidParams "Missing params field"
  | some _ => .unknownMethod none

/-- Take a request in: the answer, if there is one, and what it did. -/
def receive (load : Loader) (s : Session σ) (r : Request) : Option Json × Session σ :=
  if s.stage = .over then (none, s)
  else if r.method = "initialize" then s.opening load r
  else if r.method = "shutdown" then s.closing r
  else if r.method = "exit" then (none, { s with stage := .over })
  else if servedNotifications.contains r.method || unservedNotifications.contains r.method then
    if s.stage = .ready then
      (none, if r.id.isNone then s.notified r else s)
    else (r.answer (.error s.stageFault), s)
  else if unservedRequests.contains r.method then
    if s.stage = .ready then (r.answer (.error (refusal r)), s)
    else (r.answer (.error s.stageFault), s)
  else if r.method.startsWith "$/" then (none, s)
  else (r.answer (.error (.unknownMethod (some r.method))), s)

/-- Take a request in and send what its handler has to send; the ticker goes on when it can. -/
def exchange (load : Loader) (s : Session σ) (r : Request) : Option Json × Session σ :=
  let (answer, s) := s.receive load r
  (answer, s.announce.sendParcels)

end Session

end ModBench.Editor
