import ModBench.Toml.Quoted
import ModBench.Toml.Scalar

/-!
TOML documents.  A document is read line by line: blank lines, comments, headers, and keys with
values.  `parse?` gives the members of the document's own table, or nothing for a faulty document.
-/

set_option autoImplicit false
set_option relaxedAutoImplicit false

namespace ModBench.Toml

/-- The text without spaces and tabs at its beginning. -/
def skipBlanks (cs : List Char) : List Char :=
  cs.dropWhile fun c => c = ' ' || c = '\t'

def isBareChar (c : Char) : Bool :=
  c.isAlphanum || c = '_' || c = '-'

def takeKeyPart? (cs : List Char) : Option (String × List Char) :=
  match cs with
  | '"' :: _ => (takeQuoted? cs).map fun (text, rest) => (String.ofList text, rest)
  | '\'' :: _ => (takeQuoted? cs).map fun (text, rest) => (String.ofList text, rest)
  | _ =>
    let bare := cs.takeWhile isBareChar
    if bare.isEmpty then none else some (String.ofList bare, cs.dropWhile isBareChar)

/-- A key, its parts joined by dots, and the rest from behind the blanks after it. -/
def takeKey? : Nat → List Char → Option (List String × List Char)
  | 0, _ => none
  | fuel + 1, cs =>
    match takeKeyPart? cs with
    | none => none
    | some (part, rest) =>
      match skipBlanks rest with
      | '.' :: rest =>
        (takeKey? fuel (skipBlanks rest)).map fun (parts, rest) => (part :: parts, rest)
      | rest => some ([part], rest)

/-- The rest after a line end; the end of the text is one as well. -/
def lineEnd? : List Char → Option (List Char)
  | [] => some []
  | '\n' :: rest => some rest
  | '\r' :: '\n' :: rest => some rest
  | _ => none

/-- The rest from behind the text of a comment, if one begins here. -/
def skipComment (cs : List Char) : List Char :=
  match cs with
  | '#' :: rest => rest.dropWhile isPlain
  | cs => cs

/-- The rest after blanks, a comment and the line end. -/
def finishLine? (cs : List Char) : Option (List Char) :=
  lineEnd? (skipComment (skipBlanks cs))

/-- The rest after blanks, comments and line ends. -/
def skipLines? : Nat → List Char → Option (List Char)
  | 0, _ => none
  | fuel + 1, cs =>
    match skipBlanks cs with
    | '#' :: rest =>
      match lineEnd? (rest.dropWhile isPlain) with
      | some rest => skipLines? fuel rest
      | none => none
    | '\n' :: rest => skipLines? fuel rest
    | '\r' :: '\n' :: rest => skipLines? fuel rest
    | rest => some rest

/-- How deep arrays and inline tables may be nested. -/
def maxDepth : Nat := 80

mutual

/-- A value at the beginning of a text, and the rest. -/
def takeValue? (fuel depth : Nat) (cs : List Char) : Option (Value × List Char) :=
  match fuel with
  | 0 => none
  | fuel + 1 =>
    match cs with
    | '[' :: rest =>
      if depth = 0 then none
      else
        (takeItems? fuel (depth - 1) [] rest).map fun (items, rest) => (.array items, rest)
    | '\x7b' :: rest =>
      if depth = 0 then none
      else
        (takeMembers? fuel (depth - 1) [] rest).map fun (members, rest) =>
          (.table .inlined members, rest)
    | '"' :: _ => (takeString? cs).map fun (text, rest) => (.string (String.ofList text), rest)
    | '\'' :: _ => (takeString? cs).map fun (text, rest) => (.string (String.ofList text), rest)
    | _ => takeScalar? cs

/-- The items of an array up to its closing bracket, after those that were read. -/
def takeItems? (fuel depth : Nat) (read : List Value) (cs : List Char) :
    Option (List Value × List Char) :=
  match fuel with
  | 0 => none
  | fuel + 1 =>
    match skipLines? (cs.length + 1) cs with
    | none => none
    | some (']' :: rest) => some (read, rest)
    | some rest =>
      match takeValue? fuel depth rest with
      | none => none
      | some (value, rest) =>
        match skipLines? (rest.length + 1) rest with
        | some (',' :: rest) => takeItems? fuel depth (read ++ [value]) rest
        | some (']' :: rest) => some (read ++ [value], rest)
        | _ => none

/-- The members of an inline table up to its closing brace, after those that were read. -/
def takeMembers? (fuel depth : Nat) (read : Members) (cs : List Char) :
    Option (Members × List Char) :=
  match fuel with
  | 0 => none
  | fuel + 1 =>
    match skipLines? (cs.length + 1) cs with
    | none => none
    | some ('\x7d' :: rest) => some (read, rest)
    | some rest =>
      match takeKey? (rest.length + 1) rest with
      | some (keys, '=' :: rest) =>
        match takeValue? fuel depth (skipBlanks rest) with
        | none => none
        | some (value, rest) =>
          match Members.putKey value keys read, skipLines? (rest.length + 1) rest with
          | some read, some (',' :: rest) => takeMembers? fuel depth read rest
          | some read, some ('\x7d' :: rest) => some (read, rest)
          | _, _ => none
      | _ => none

end

/-- What has been read: the whole document and the keys of the table that new keys go into. -/
structure Draft where
  members : Members := []
  table : List String := []

namespace Draft

def header (d : Draft) (repeated : Bool) (keys : List String) : Option Draft :=
  match keys.getLast? with
  | none => none
  | some key =>
    (d.members.descend (fun members =>
        if repeated then members.openRepeated key else members.openTable key)
      keys.dropLast).map fun members => ⟨members, keys⟩

def put (d : Draft) (keys : List String) (value : Value) : Option Draft :=
  (d.members.descend (fun members => members.putKey value keys) d.table).map fun members =>
    { d with members := members }

end Draft

/-- A header from behind its opening brackets, and the rest from behind its line. -/
def takeHeader? (d : Draft) (repeated : Bool) (cs : List Char) : Option (Draft × List Char) :=
  match takeKey? (cs.length + 1) (skipBlanks cs) with
  | none => none
  | some (keys, rest) =>
    let closed := match repeated, rest with
      | true, ']' :: ']' :: rest => some rest
      | false, ']' :: rest => some rest
      | _, _ => none
    match closed with
    | none => none
    | some rest =>
      match d.header repeated keys, finishLine? rest with
      | some d, some rest => some (d, rest)
      | _, _ => none

/-- A key with its value, and the rest from behind its line. -/
def takePair? (d : Draft) (cs : List Char) : Option (Draft × List Char) :=
  match takeKey? (cs.length + 1) cs with
  | some (keys, '=' :: rest) =>
    match takeValue? (2 * cs.length + 2) maxDepth (skipBlanks rest) with
    | none => none
    | some (value, rest) =>
      match d.put keys value, finishLine? rest with
      | some d, some rest => some (d, rest)
      | _, _ => none
  | _ => none

def takeLines? : Nat → Draft → List Char → Option Draft
  | 0, _, _ => none
  | fuel + 1, d, cs =>
    match skipLines? (cs.length + 1) cs with
    | none => none
    | some [] => some d
    | some ('[' :: '[' :: rest) =>
      match takeHeader? d true rest with
      | some (d, rest) => takeLines? fuel d rest
      | none => none
    | some ('[' :: rest) =>
      match takeHeader? d false rest with
      | some (d, rest) => takeLines? fuel d rest
      | none => none
    | some rest =>
      match takePair? d rest with
      | some (d, rest) => takeLines? fuel d rest
      | none => none

/-- The text without a byte order mark. -/
def dropMark : List Char → List Char
  | '\ufeff' :: rest => rest
  | cs => cs

/-- The members of a document's own table. -/
def parse? (text : String) : Option Members :=
  let cs := dropMark text.toList
  (takeLines? (cs.length + 1) {} cs).map Draft.members

end ModBench.Toml
