/-!
Decimal numerals.  A numeral is one or more ASCII digits, with at most one plus sign in front; it
is read only when its value fits the width asked for.
-/

set_option autoImplicit false
set_option relaxedAutoImplicit false

namespace ModBench.Text

/-- The value of a decimal digit. -/
def digit? (c : Char) : Option Nat :=
  if '0' ≤ c ∧ c ≤ '9' then some (c.toNat - '0'.toNat) else none

/-- The value of a run of digits read after the value `acc`. -/
def digitsFrom (acc : Nat) : List Char → Option Nat
  | [] => some acc
  | c :: rest =>
    match digit? c with
    | some d => digitsFrom (10 * acc + d) rest
    | none => none

def digits? : List Char → Option Nat
  | [] => none
  | cs => digitsFrom 0 cs

/-- The value of a numeral, with no bound on it. -/
def numeral? : List Char → Option Nat
  | '+' :: rest => digits? rest
  | cs => digits? cs

/-- The value of a numeral that fits 32 bits. -/
def numeral32? (cs : List Char) : Option UInt32 :=
  match numeral? cs with
  | some n => if n < 0x100000000 then some (UInt32.ofNat n) else none
  | none => none

example : numeral32? ['+', '4', '2'] = some 42 := by decide

example : numeral32? ['-', '1'] = none ∧ numeral32? [] = none ∧ numeral32? ['+'] = none := by
  decide

end ModBench.Text
