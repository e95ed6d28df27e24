/-!
UTF-8.  `encode` writes characters as bytes; `decodeLossy` reads any bytes and puts U+FFFD for each
maximal part that cannot begin a character; `decode?` reads only bytes that are entirely valid.
-/

set_option autoImplicit false
set_option relaxedAutoImplicit false

namespace ModBench.Text

def encodeChar (c : Char) : List UInt8 :=
  let n := c.toNat
  if n < 0x80 then [UInt8.ofNat n]
  else if n < 0x800 then [UInt8.ofNat (0xc0 + n / 64), UInt8.ofNat (0x80 + n % 64)]
  else if n < 0x10000 then
    [UInt8.ofNat (0xe0 + n / 4096), UInt8.ofNat (0x80 + n / 64 % 64), UInt8.ofNat (0x80 + n % 64)]
  else
    [UInt8.ofNat (0xf0 + n / 262144), UInt8.ofNat (0x80 + n / 4096 % 64),
      UInt8.ofNat (0x80 + n / 64 % 64), UInt8.ofNat (0x80 + n % 64)]

def encode (text : List Char) : List UInt8 :=
  text.flatMap encodeChar

def encodeString (s : String) : List UInt8 :=
  encode s.toList

/-- A character whose first bytes were read. -/
structure Begun where
  /-- The bits of its value so far. -/
  value : Nat
  /-- How many bytes of it come behind the next one. -/
  owed : Nat
  /-- The range of its next byte. -/
  low : Nat := 0x80
  high : Nat := 0xbf
  deriving DecidableEq, Repr

namespace Begun

/-- The character that a byte begins which is not one by itself.  The range of the next byte leaves
out what could be written with fewer bytes, the surrogates, and what is above all characters. -/
def ofLead? (b : Nat) : Option Begun :=
  if 0xc2 ≤ b ∧ b ≤ 0xdf then some { value := b % 32, owed := 0 }
  else if 0xe0 ≤ b ∧ b ≤ 0xef then
    some { value := b % 16, owed := 1, low := if b = 0xe0 then 0xa0 else 0x80,
           high := if b = 0xed then 0x9f else 0xbf }
  else if 0xf0 ≤ b ∧ b ≤ 0xf4 then
    some { value := b % 8, owed := 2, low := if b = 0xf0 then 0x90 else 0x80,
           high := if b = 0xf4 then 0x8f else 0xbf }
  else none

def takes (c : Begun) (b : Nat) : Bool :=
  c.low ≤ b && b ≤ c.high

/-- The value with the bits of one more byte. -/
def extended (c : Begun) (b : Nat) : Nat :=
  c.value * 64 + b % 64

end Begun

/-- Read a byte at which a character begins, and the rest from what is begun then. -/
def readFirst (b : UInt8) (rest : Option Begun → List (Option Char)) : List (Option Char) :=
  if b.toNat < 0x80 then some (Char.ofNat b.toNat) :: rest none
  else
    match Begun.ofLead? b.toNat with
    | none => none :: rest none
    | some begun => rest (some begun)

/-- The characters and faulty parts of a byte list behind the beginning of a character. -/
def readBehind : Option Begun → List UInt8 → List (Option Char)
  | none, [] => []
  | some _, [] => [none]
  | none, b :: rest => readFirst b fun begun => readBehind begun rest
  | some c, b :: rest =>
    if c.takes b.toNat then
      match c.owed with
      | 0 => some (Char.ofNat (c.extended b.toNat)) :: readBehind none rest
      | owed + 1 => readBehind (some { value := c.extended b.toNat, owed := owed }) rest
    else none :: readFirst b fun begun => readBehind begun rest

/-- The characters and faulty parts of a byte list, in order. -/
def readChars (bytes : List UInt8) : List (Option Char) :=
  readBehind none bytes

/-- Any bytes as text, with U+FFFD for each faulty part. -/
def decodeLossy (bytes : List UInt8) : String :=
  String.ofList ((readChars bytes).map fun c => c.getD '\ufffd')

/-- Valid bytes as text; `none` if some part is faulty. -/
def decode? (bytes : List UInt8) : Option String :=
  let chars := readChars bytes
  if chars.all Option.isSome then some (String.ofList (chars.filterMap id)) else none

end ModBench.Text
