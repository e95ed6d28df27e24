import ModBench.Json
import ModBench.Text.Numeral

/-!
Reading JSON texts.  `Json.parse?` takes one value with blanks around it and nothing else.
-/

set_option autoImplicit false
set_option relaxedAutoImplicit false

namespace ModBench.Json

/-- Blanks between the parts of a JSON text. -/
def isGap (c : Char) : Bool :=
  c = ' ' || c = '\n' || c = '\r' || c = '\t'

/-- The text without blanks at its beginning. -/
def skipGaps (cs : List Char) : List Char :=
  cs.dropWhile isGap

/-- The value of a hexadecimal digit. -/
def hexValue? (c : Char) : Option Nat :=
  if '0' ≤ c ∧ c ≤ '9' then some (c.toNat - 48)
  else if 'a' ≤ c ∧ c ≤ 'f' then some (c.toNat - 87)
  else if 'A' ≤ c ∧ c ≤ 'F' then some (c.toNat - 55)
  else none

/-- The value of four hexadecimal digits. -/
def unit? (a b c d : Char) : Option Nat :=
  match hexValue? a, hexValue? b, hexValue? c, hexValue? d with
  | some a, some b, some c, some d => some (((a * 16 + b) * 16 + c) * 16 + d)
  | _, _, _, _ => none

def shortEscape? (c : Char) : Option Char :=
  if c = '"' || c = '\\' || c = '/' then some c
  else if c = 'n' then some '\n'
  else if c = 'r' then some '\r'
  else if c = 't' then some '\t'
  else if c = 'b' then some '\x08'
  else if c = 'f' then some '\x0c'
  else none

/-- Whether a unit is the first half of a character outside the basic plane. -/
def isHigh (unit : Nat) : Bool := 0xd800 ≤ unit && unit ≤ 0xdbff

/-- Whether a unit is the second half of a character outside the basic plane. -/
def isLow (unit : Nat) : Bool := 0xdc00 ≤ unit && unit ≤ 0xdfff

/-- The character of two halves. -/
def pair (high low : Nat) : Char :=
  Char.ofNat (0x10000 + (high - 0xd800) * 0x400 + (low - 0xdc00))

/-- The characters of a string up to its closing quote, and the rest; `half` is a first half that
waits for its second one. -/
def takeText? (half : Option Nat) : List Char → Option (List Char × List Char)
  | [] => none
  | '"' :: rest => if half.isNone then some ([], rest) else none
  | '\\' :: 'u' :: a :: b :: c :: d :: rest =>
    match unit? a b c d, half with
    | none, _ => none
    | some unit, some high =>
      if isLow unit then
        (takeText? none rest).map fun (text, rest) => (pair high unit :: text, rest)
      else none
    | some unit, none =>
      if isHigh unit then takeText? (some unit) rest
      else if isLow unit then none
      else (takeText? none rest).map fun (text, rest) => (Char.ofNat unit :: text, rest)
  | '\\' :: c :: rest =>
    if half.isSome then none
    else
      match shortEscape? c with
      | none => none
      | some c => (takeText? none rest).map fun (text, rest) => (c :: text, rest)
  | c :: rest =>
    if half.isSome || c = '\\' || c.toNat < 32 then none
    else (takeText? none rest).map fun (text, rest) => (c :: text, rest)

def isNumeric (c : Char) : Bool :=
  c.isDigit || c = '-' || c = '+' || c = '.' || c = 'e' || c = 'E'

/-- Digits without a zero in front of others. -/
def wholePart? : List Char → Option Nat
  | '0' :: _ :: _ => none
  | cs => Text.digits? cs

/-- Whether the text is a fraction, an exponent, or one after the other, or empty. -/
def isTail (cs : List Char) : Bool :=
  let cs := match cs with
    | '.' :: rest =>
      if (rest.takeWhile Char.isDigit).isEmpty then '.' :: rest else rest.dropWhile Char.isDigit
    | cs => cs
  match cs with
  | [] => true
  | e :: '-' :: digits => (e = 'e' || e = 'E') && (Text.digits? digits).isSome
  | e :: '+' :: digits => (e = 'e' || e = 'E') && (Text.digits? digits).isSome
  | e :: digits => (e = 'e' || e = 'E') && (Text.digits? digits).isSome

/-- The number that a text writes. -/
def number? (cs : List Char) : Option Json :=
  let unsigned := match cs with
    | '-' :: rest => rest
    | cs => cs
  let whole := unsigned.takeWhile Char.isDigit
  let tail := unsigned.dropWhile Char.isDigit
  match wholePart? whole with
  | none => none
  | some n =>
    if tail.isEmpty then
      if cs.head? = some '-' then some (number (-(n : Int))) else some (number n)
    else if isTail tail then some (decimal (String.ofList cs))
    else none

mutual

/-- A value at the beginning of a text, blanks before it skipped, and the rest. -/
def takeValue? (fuel : Nat) (cs : List Char) : Option (Json × List Char) :=
  match fuel with
  | 0 => none
  | fuel + 1 =>
    match skipGaps cs with
    | 'n' :: 'u' :: 'l' :: 'l' :: rest => some (null, rest)
    | 't' :: 'r' :: 'u' :: 'e' :: rest => some (bool true, rest)
    | 'f' :: 'a' :: 'l' :: 's' :: 'e' :: rest => some (bool false, rest)
    | '"' :: rest => (takeText? none rest).map fun (s, rest) => (string (String.ofList s), rest)
    | '[' :: rest =>
      match skipGaps rest with
      | ']' :: rest => some (array [], rest)
      | rest => (takeItems? fuel rest).map fun (items, rest) => (array items, rest)
    | '\x7b' :: rest =>
      match skipGaps rest with
      | '\x7d' :: rest => some (object [], rest)
      | rest => (takeMembers? fuel rest).map fun (members, rest) => (object members, rest)
    | cs => (number? (cs.takeWhile isNumeric)).map fun n => (n, cs.dropWhile isNumeric)
termination_by fuel

/-- The items of an array up to its end. -/
def takeItems? (fuel : Nat) (cs : List Char) : Option (List Json × List Char) :=
  match fuel with
  | 0 => none
  | fuel + 1 =>
    match takeValue? fuel cs with
    | none => none
    | some (item, rest) =>
      match skipGaps rest with
      | ']' :: rest => some ([item], rest)
      | ',' :: rest => (takeItems? fuel rest).map fun (items, rest) => (item :: items, rest)
      | _ => none
termination_by fuel

/-- The members of an object up to its end. -/
def takeMembers? (fuel : Nat) (cs : List Char) : Option (List (String × Json) × List Char) :=
  match fuel with
  | 0 => none
  | fuel + 1 =>
    match takeMember? fuel cs with
    | none => none
    | some (entry, rest) =>
      match skipGaps rest with
      | '\x7d' :: rest => some ([entry], rest)
      | ',' :: rest => (takeMembers? fuel rest).map fun (entries, rest) => (entry :: entries, rest)
      | _ => none
termination_by fuel

def takeMember? (fuel : Nat) (cs : List Char) : Option ((String × Json) × List Char) :=
  match fuel with
  | 0 => none
  | fuel + 1 =>
    match skipGaps cs with
    | '"' :: rest =>
      match takeText? none rest with
      | none => none
      | some (key, rest) =>
        match skipGaps rest with
        | ':' :: rest =>
          (takeValue? fuel rest).map fun (value, rest) => ((String.ofList key, value), rest)
        | _ => none
    | _ => none
termination_by fuel

end

/-- The value that a text writes. -/
def parse? (text : String) : Option Json :=
  let cs := text.toList
  match takeValue? (2 * cs.length + 2) cs with
  | some (value, rest) => if (skipGaps rest).isEmpty then some value else none
  | none => none

end ModBench.Json
