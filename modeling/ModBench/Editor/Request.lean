import ModBench.Json
import ModBench.Url

/-!
Requests of the editor, and the answers to them.  A request with an identifier is answered, one
without is not; faults have a number and a text.
-/

set_option autoImplicit false
set_option relaxedAutoImplicit false

namespace ModBench.Editor

structure Request where
  method : String
  /-- What the answer is to carry; none for a request that wants no answer. -/
  id : Option Json := none
  params : Option Json := none
  deriving Repr, Inhabited

/-- Why a request could not be served. -/
inductive RequestFault where
  | unreadable
  | invalidRequest
  /-- No such method; the name is told for methods that nobody knows. -/
  | unknownMethod (name : Option String)
  | invalidParams (words : String)
  /-- The conversation has not begun. -/
  | tooEarly
  deriving DecidableEq, Repr, Inhabited

namespace RequestFault

/-- The fault's number. -/
def code : RequestFault → Int
  | unreadable => -32700
  | invalidRequest => -32600
  | unknownMethod _ => -32601
  | invalidParams _ => -32602
  | tooEarly => -32002

/-- The fault's text. -/
def message : RequestFault → String
  | unreadable => "Parse error"
  | invalidRequest => "Invalid request"
  | unknownMethod _ => "Method not found"
  | invalidParams words => words
  | tooEarly => "Server not initialized"

/-- What is told besides. -/
def data : RequestFault → List (String × Json)
  | unknownMethod (some name) => [("data", .string name)]
  | _ => []

def toJson (f : RequestFault) : Json :=
  .object ([("code", .number f.code), ("message", .string f.message)] ++ f.data)

end RequestFault

def response (id : Json) (result : Except RequestFault Json) : Json :=
  let outcome := match result with
    | .ok value => ("result", value)
    | .error fault => ("error", fault.toJson)
  .object [("jsonrpc", .string "2.0"), outcome, ("id", id)]

namespace Request

/-- Whether a value can identify a request. -/
def isId : Json → Bool
  | .null => true
  | .number _ => true
  | .string _ => true
  | _ => false

def ofJson? (j : Json) : Option Request :=
  match j.member? "jsonrpc" with
  | some (.string "2.0") =>
    let method := match j.member? "method" with
      | none => some ""
      | some (.string method) => some method
      | some _ => none
    match method, j.member? "id" with
    | some method, none => some ⟨method, none, j.member? "params"⟩
    | some method, some id => if isId id then some ⟨method, some id, j.member? "params"⟩ else none
    | none, _ => none
  | _ => none

def answer (r : Request) (result : Except RequestFault Json) : Option Json :=
  r.id.map fun id => response id result

end Request

/-- A value with a name for what was expected in its place. -/
def unexpected (j : Json) (expected : String) : String :=
  let found := match j with
    | .null => "null"
    | .bool b => "boolean \x60" ++ toString b ++ "\x60"
    | .number n => "integer \x60" ++ toString n ++ "\x60"
    | .decimal text => "floating point \x60" ++ text ++ "\x60"
    | .string s => "string " ++ Json.quote s
    | .array _ => "sequence"
    | .object _ => "map"
  "invalid type: " ++ found ++ ", expected " ++ expected

/-- A member that has to be there. -/
def required (j : Json) (structName key : String) : Except String Json :=
  match j with
  | .object _ =>
    match j.member? key with
    | some value => .ok value
    | none => .error ("missing field \x60" ++ key ++ "\x60")
  | other => .error (unexpected other ("struct " ++ structName))

def stringOf (j : Json) : Except String String :=
  match j with
  | .string s => .ok s
  | other => .error (unexpected other "a string")

def urlOf (j : Json) : Except String Url :=
  match j with
  | .string s =>
    match Url.parse? s with
    | some url => .ok url
    | none => .error ("relative URL without a base: " ++ Json.quote s)
  | other => .error (unexpected other "a string representing an URL")

def folderOf (j : Json) : Except String Url :=
  match required j "WorkspaceFolder" "uri" with
  | .error words => .error words
  | .ok uri =>
    match urlOf uri with
    | .error words => .error words
    | .ok url =>
      match required j "WorkspaceFolder" "name" with
      | .error words => .error words
      | .ok name => (stringOf name).map fun _ => url

/-- The URLs of the folders of the workspace; none are given by an absent or null value. -/
def foldersOf (j : Option Json) : Except String (List Url) :=
  match j with
  | none => .ok []
  | some .null => .ok []
  | some (.array items) => items.mapM folderOf
  | some other => .error (unexpected other "a sequence")

/-- A URL that may be absent. -/
def optionalUrl (j : Option Json) : Except String (Option Url) :=
  match j with
  | none => .ok none
  | some .null => .ok none
  | some value => (urlOf value).map some

/-- The first of the given places that is a path; folders come before the root. -/
def rootsOf (folders : List Url) (root : Option Url) : List Path :=
  match folders.filterMap Url.toPath? with
  | [] => (root.bind Url.toPath?).toList
  | paths => paths

/-- The workspace roots in the parameters that open a conversation. -/
def rootsFromParams (params : Option Json) : Except String (List Path) :=
  match params with
  | none => .error "Missing params field"
  | some j =>
    match j with
    | .object _ =>
      match optionalUrl (j.member? "rootUri") with
      | .error words => .error words
      | .ok root =>
        match required j "InitializeParams" "capabilities" with
        | .error words => .error words
        | .ok (.object _) =>
          (foldersOf (j.member? "workspaceFolders")).map fun fs => rootsOf fs root
        | .ok other => .error (unexpected other "struct ClientCapabilities")
    | other => .error (unexpected other "struct InitializeParams")

/-- Whether a value is an integer of 32 bits. -/
def isInteger32 : Json → Bool
  | .number n => -0x80000000 ≤ n && n < 0x80000000
  | _ => false

def documentUrl? (params : Option Json) : Option Url :=
  match params.bind (Json.member? "textDocument") with
  | some document => ((document.member? "uri").bind fun j => (urlOf j).toOption)
  | none => none

/-- Whether a document is described in full, as it is when it is opened. -/
def isOpened (params : Option Json) : Bool :=
  match params.bind (Json.member? "textDocument") with
  | some document =>
    ((document.member? "languageId").bind Json.string?).isSome &&
      ((document.member? "version").map isInteger32).getD false &&
      ((document.member? "text").bind Json.string?).isSome
  | none => false

/-- Whether the text in some parameters is absent or a string. -/
def hasOptionalText (params : Option Json) : Bool :=
  match params.bind (Json.member? "text") with
  | none => true
  | some .null => true
  | some (.string _) => true
  | some _ => false

end ModBench.Editor
