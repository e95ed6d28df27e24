import ModBench.Text.Utf8

/-!
Percent encoding.  A byte is written as itself or as a percent sign and two digits; reading takes
every well-formed triple back and leaves all other text as it is.
-/

set_option autoImplicit false
set_option relaxedAutoImplicit false

namespace ModBench.Url

def upperDigit (n : Nat) : Char :=
  Char.ofNat (if n < 10 then 48 + n else 55 + n)

/-- A byte as a percent sign and two digits. -/
def triple (b : UInt8) : List Char :=
  ['%', upperDigit (b.toNat / 16), upperDigit (b.toNat % 16)]

/-- The characters that would end a segment or begin something else in it. -/
def marks : List Char :=
  ['"', '<', '>', '\x60', '#', '?', '\x7b', '\x7d', '/', '%', '\\']

/-- Whether a byte is not written as itself in a segment of a path. -/
def isEncoded (b : UInt8) : Bool :=
  b ≤ 0x20 || 0x7f ≤ b || marks.contains (Char.ofUInt8 b)

def encodeSegment (segment : List UInt8) : List Char :=
  segment.flatMap fun b => if isEncoded b then triple b else [Char.ofUInt8 b]

/-- The value of a hexadecimal digit. -/
def hexDigit? (c : Char) : Option Nat :=
  if '0' ≤ c ∧ c ≤ '9' then some (c.toNat - 48)
  else if 'a' ≤ c ∧ c ≤ 'f' then some (c.toNat - 87)
  else if 'A' ≤ c ∧ c ≤ 'F' then some (c.toNat - 55)
  else none

/-- The byte of two hexadecimal digits. -/
def byte? (high low : Char) : Option UInt8 :=
  match hexDigit? high, hexDigit? low with
  | some high, some low => some (UInt8.ofNat (16 * high + low))
  | _, _ => none

/-- The bytes that a text stands for. -/
def decode : List Char → List UInt8
  | '%' :: high :: low :: rest =>
    match byte? high low with
    | some b => b :: decode rest
    | none => Text.encodeChar '%' ++ decode (high :: low :: rest)
  | c :: rest => Text.encodeChar c ++ decode rest
  | [] => []
termination_by cs => cs.length

end ModBench.Url
