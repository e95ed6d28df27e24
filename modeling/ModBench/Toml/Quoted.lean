/-!
Strings of TOML: between double quotes, with escapes, or between single quotes, as they stand; and
both over several lines between tripled quotes.
-/

set_option autoImplicit false
set_option relaxedAutoImplicit false

namespace ModBench.Toml

/-- Characters that may stand in comments and strings; tab is the only control character. -/
def isPlain (c : Char) : Bool :=
  c = '\t' || (0x20 ≤ c.toNat && c.toNat != 0x7f)

/-- The value of a hexadecimal digit. -/
def hex? (c : Char) : Option Nat :=
  if '0' ≤ c ∧ c ≤ '9' then some (c.toNat - 48)
  else if 'a' ≤ c ∧ c ≤ 'f' then some (c.toNat - 87)
  else if 'A' ≤ c ∧ c ≤ 'F' then some (c.toNat - 55)
  else none

/-- The value of hexadecimal digits. -/
def hexValue? (acc : Nat) : List Char → Option Nat
  | [] => some acc
  | c :: rest =>
    match hex? c with
    | some d => hexValue? (acc * 16 + d) rest
    | none => none

def charOfHex? (digits : List Char) : Option Char :=
  match hexValue? 0 digits with
  | some n => if n.isValidChar then some (Char.ofNat n) else none
  | none => none

def simpleEscape? (c : Char) : Option Char :=
  if c = 'b' then some '\x08'
  else if c = 't' then some '\t'
  else if c = 'n' then some '\n'
  else if c = 'f' then some '\x0c'
  else if c = 'r' then some '\r'
  else if c = 'e' then some '\x1b'
  else if c = '"' then some '"'
  else if c = '\\' then some '\\'
  else none

/-- A character put before a string that was read. -/
def push (c : Option Char) (found : Option (List Char × List Char)) :
    Option (List Char × List Char) :=
  match c, found with
  | some c, some (text, rest) => some (c :: text, rest)
  | _, _ => none

/-- The text up to a closing double quote, and the rest. -/
def basic? : List Char → Option (List Char × List Char)
  | [] => none
  | '"' :: rest => some ([], rest)
  | '\\' :: 'x' :: a :: b :: rest => push (charOfHex? [a, b]) (basic? rest)
  | '\\' :: 'u' :: a :: b :: c :: d :: rest => push (charOfHex? [a, b, c, d]) (basic? rest)
  | '\\' :: 'U' :: a :: b :: c :: d :: e :: f :: g :: h :: rest =>
    push (charOfHex? [a, b, c, d, e, f, g, h]) (basic? rest)
  | '\\' :: c :: rest => push (simpleEscape? c) (basic? rest)
  | c :: rest => if isPlain c && c != '\\' then push (some c) (basic? rest) else none

/-- The text up to a closing single quote, and the rest. -/
def literal? : List Char → Option (List Char × List Char)
  | [] => none
  | '\'' :: rest => some ([], rest)
  | c :: rest => if isPlain c then push (some c) (literal? rest) else none

/-- Where the reader of a long string stands. -/
inductive LongMode where
  | text
  /-- After a backslash, in blanks that a line end must follow. -/
  | beforeBreak
  /-- After such a line end, in blanks and line ends that do not count. -/
  | afterBreak
  deriving DecidableEq

/-- The text up to tripled double quotes, and the rest. -/
def longBasic? : LongMode → List Char → Option (List Char × List Char)
  | _, [] => none
  | .beforeBreak, '\r' :: '\n' :: rest => longBasic? .afterBreak rest
  | .beforeBreak, '\n' :: rest => longBasic? .afterBreak rest
  | .beforeBreak, ' ' :: rest => longBasic? .beforeBreak rest
  | .beforeBreak, '\t' :: rest => longBasic? .beforeBreak rest
  | .beforeBreak, _ => none
  | .afterBreak, ' ' :: rest => longBasic? .afterBreak rest
  | .afterBreak, '\t' :: rest => longBasic? .afterBreak rest
  | .afterBreak, '\n' :: rest => longBasic? .afterBreak rest
  | .afterBreak, '\r' :: '\n' :: rest => longBasic? .afterBreak rest
  | _, '"' :: '"' :: '"' :: '"' :: '"' :: rest => some (['"', '"'], rest)
  | _, '"' :: '"' :: '"' :: '"' :: rest => some (['"'], rest)
  | _, '"' :: '"' :: '"' :: rest => some ([], rest)
  | _, '\\' :: 'x' :: a :: b :: rest => push (charOfHex? [a, b]) (longBasic? .text rest)
  | _, '\\' :: 'u' :: a :: b :: c :: d :: rest =>
    push (charOfHex? [a, b, c, d]) (longBasic? .text rest)
  | _, '\\' :: 'U' :: a :: b :: c :: d :: e :: f :: g :: h :: rest =>
    push (charOfHex? [a, b, c, d, e, f, g, h]) (longBasic? .text rest)
  | _, '\\' :: '\n' :: rest => longBasic? .afterBreak rest
  | _, '\\' :: '\r' :: '\n' :: rest => longBasic? .afterBreak rest
  | _, '\\' :: ' ' :: rest => longBasic? .beforeBreak rest
  | _, '\\' :: '\t' :: rest => longBasic? .beforeBreak rest
  | _, '\\' :: c :: rest => push (simpleEscape? c) (longBasic? .text rest)
  | _, '\n' :: rest => push (some '\n') (longBasic? .text rest)
  | _, '\r' :: '\n' :: rest => push (some '\n') (longBasic? .text rest)
  | _, c :: rest => if isPlain c && c != '\\' then push (some c) (longBasic? .text rest) else none

/-- The text up to tripled single quotes, and the rest. -/
def longLiteral? : List Char → Option (List Char × List Char)
  | [] => none
  | '\'' :: '\'' :: '\'' :: '\'' :: '\'' :: rest => some (['\'', '\''], rest)
  | '\'' :: '\'' :: '\'' :: '\'' :: rest => some (['\''], rest)
  | '\'' :: '\'' :: '\'' :: rest => some ([], rest)
  | '\n' :: rest => push (some '\n') (longLiteral? rest)
  | '\r' :: '\n' :: rest => push (some '\n') (longLiteral? rest)
  | c :: rest => if isPlain c then push (some c) (longLiteral? rest) else none

/-- The text without a line end at its very beginning. -/
def dropBreak : List Char → List Char
  | '\n' :: rest => rest
  | '\r' :: '\n' :: rest => rest
  | cs => cs

/-- A string of one line at the beginning of a text. -/
def takeQuoted? : List Char → Option (List Char × List Char)
  | '"' :: rest => basic? rest
  | '\'' :: rest => literal? rest
  | _ => none

/-- A string of any of the four forms at the beginning of a text. -/
def takeString? : List Char → Option (List Char × List Char)
  | '"' :: '"' :: '"' :: rest => longBasic? .text (dropBreak rest)
  | '\'' :: '\'' :: '\'' :: rest => longLiteral? (dropBreak rest)
  | cs => takeQuoted? cs

end ModBench.Toml
