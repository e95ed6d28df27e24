import ModBench.Path
import ModBench.Url.Percent

/-!
Hosts of URLs.  A host is an address between brackets, an address of four numbers, or a name; the
schemes of the web restrict the characters of names and read them in lower case.
-/

set_option autoImplicit false
set_option relaxedAutoImplicit false

namespace ModBench.Url

/-- The lower-case form of an ASCII letter; any other character is itself. -/
def lowerAscii (c : Char) : Char :=
  if 'A' ≤ c ∧ c ≤ 'Z' then Char.ofNat (c.toNat + 32) else c

/-- Whether a group of an address between brackets is one to four hexadecimal digits. -/
def isGroup (cs : List Char) : Bool :=
  !cs.isEmpty && cs.length ≤ 4 && cs.all fun c => (hexDigit? c).isSome

def valueIn? (base : Nat) (cs : List Char) : Option Nat :=
  cs.foldl (fun acc c =>
    match acc, hexDigit? c with
    | some n, some d => if d < base then some (n * base + d) else none
    | _, _ => none) (some 0)

/-- A part of a dotted address: decimal, octal behind a zero, or hexadecimal behind `0x`. -/
def dottedPart? (cs : List Char) : Option Nat :=
  match cs with
  | [] => none
  | '0' :: 'x' :: rest => valueIn? 16 rest
  | '0' :: 'X' :: rest => valueIn? 16 rest
  | ['0'] => some 0
  | '0' :: rest => valueIn? 8 rest
  | cs => valueIn? 10 cs

/-- The parts of a dotted text; an empty last one does not count. -/
def dottedParts (cs : List Char) : List (List Char) :=
  let parts := Text.split '.' cs
  if 1 < parts.length ∧ parts.getLast? = some [] then parts.dropLast else parts

/-- Whether a name can only be a dotted address. -/
def endsInNumber (cs : List Char) : Bool :=
  match (dottedParts cs).getLast? with
  | none => false
  | some last => (!last.isEmpty && last.all Char.isDigit) || (dottedPart? last).isSome

/-- Whether a text is a dotted address: every part but the last is below 256, and the last one fills
what is left of 32 bits. -/
def isDottedAddress (cs : List Char) : Bool :=
  match (dottedParts cs).mapM dottedPart? with
  | none => false
  | some numbers =>
    match numbers.getLast? with
    | none => false
    | some last =>
      numbers.length ≤ 4 && (numbers.dropLast.all fun n => n < 256) &&
        last < Nat.pow 256 (5 - numbers.length)

/-- Whether a part of a dotted address inside brackets is a decimal number below 256. -/
def isOctet (cs : List Char) : Bool :=
  match cs with
  | [] => false
  | ['0'] => true
  | '0' :: _ => false
  | cs => cs.length ≤ 3 && cs.all Char.isDigit && (valueIn? 10 cs).getD 256 < 256

/-- How many groups of sixteen bits some pieces between colons make, if they are well formed; only
the last piece of the address may be dotted. -/
def groupCount? (atEnd : Bool) : List (List Char) → Option Nat
  | [] => some 0
  | [piece] =>
    if isGroup piece then some 1
    else if atEnd && (Text.split '.' piece).length = 4 && (Text.split '.' piece).all isOctet then
      some 2
    else none
  | piece :: rest => if isGroup piece then (groupCount? atEnd rest).map (· + 1) else none

/-- Pieces before and after the first empty one; none if no piece is empty. -/
def cutEmpty : List (List Char) → Option (List (List Char) × List (List Char))
  | [] => none
  | [] :: rest => some ([], rest)
  | piece :: rest => (cutEmpty rest).map fun (before, after) => (piece :: before, after)

/-- Whether a text is the address that stands between brackets: eight groups, or fewer with one
double colon. -/
def isBracketAddress (cs : List Char) : Bool :=
  let pieces := Text.split ':' cs
  match cs with
  | [':', ':'] => true
  | ':' :: ':' :: _ =>
    match groupCount? true (pieces.drop 2) with
    | some n => n ≤ 7
    | none => false
  | _ =>
    match cutEmpty pieces with
    | none => groupCount? true pieces == some 8
    | some (before, after) =>
      let after := if after = [[]] then [] else after
      match groupCount? false before, groupCount? true after with
      | some m, some n => 0 < m && m + n ≤ 7 && (cs.getLast? != some ':' || after.isEmpty)
      | _, _ => false

/-- Characters that no name of a host may have. -/
def isForbidden (c : Char) : Bool :=
  c.toNat ≤ 0x20 || c.toNat = 0x7f || c = '#' || c = '/' || c = ':' || c = '<' || c = '>' ||
    c = '?' || c = '@' || c = '[' || c = '\\' || c = ']' || c = '^' || c = '\x60' || c = '\x7b' ||
    c = '\x7d' || c = '|' || c = '%' || c = '\ufffd'

/-- Characters that no name may have when the scheme is none of the web. -/
def isForbiddenPlain (c : Char) : Bool :=
  c.toNat = 0 || c = ' ' || c = '#' || c = '/' || c = ':' || c = '<' || c = '>' || c = '?' ||
    c = '@' || c = '[' || c = '\\' || c = ']' || c = '^' || c = '|'

def bracketHost? (cs : List Char) : Option (List Char) :=
  if cs.getLast? = some ']' ∧ isBracketAddress (cs.tail.dropLast) then some cs else none

/-- The host that a text names under a scheme of the web. -/
def webHost? (cs : List Char) : Option (List Char) :=
  if cs.head? = some '[' then bracketHost? cs
  else
    let name := (Text.decodeLossy (decode cs)).toList.map lowerAscii
    if name.isEmpty || name.any isForbidden then none
    else if endsInNumber name && !isDottedAddress name then none
    else some name

/-- The host that a text names under any other scheme; it may be empty. -/
def plainHost? (cs : List Char) : Option (List Char) :=
  if cs.head? = some '[' then bracketHost? cs
  else if cs.any isForbiddenPlain then none
  else some cs

end ModBench.Url
