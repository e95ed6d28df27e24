import ModBench.Toml.Value

/-!
Scalars of TOML: truth values, integers in four bases, floats, dates and times.  A scalar is read
from the whole of its text.
-/

set_option autoImplicit false
set_option relaxedAutoImplicit false

namespace ModBench.Toml

def digitIn? (base : Nat) (c : Char) : Option Nat :=
  let value :=
    if '0' ≤ c ∧ c ≤ '9' then some (c.toNat - 48)
    else if 'a' ≤ c ∧ c ≤ 'f' then some (c.toNat - 87)
    else if 'A' ≤ c ∧ c ≤ 'F' then some (c.toNat - 55)
    else none
  match value with
  | some d => if d < base then some d else none
  | none => none

/-- Digits with single underscores between them, after at least one digit of value `acc`. -/
def moreDigits? (base acc : Nat) : List Char → Option Nat
  | [] => some acc
  | '_' :: c :: rest =>
    match digitIn? base c with
    | some d => moreDigits? base (acc * base + d) rest
    | none => none
  | c :: rest =>
    match digitIn? base c with
    | some d => moreDigits? base (acc * base + d) rest
    | none => none

/-- Digits with single underscores between them. -/
def digits? (base : Nat) : List Char → Option Nat
  | [] => none
  | c :: rest =>
    match digitIn? base c with
    | some d => moreDigits? base d rest
    | none => none

/-- A decimal number without needless zeros in front. -/
def decimal? : List Char → Option Nat
  | ['0'] => some 0
  | '0' :: _ => none
  | cs => digits? 10 cs

/-- The sign in front of a number, if there is one: whether it is a minus, and the rest. -/
def sign : List Char → Bool × List Char
  | '+' :: rest => (false, rest)
  | '-' :: rest => (true, rest)
  | cs => (false, cs)

/-- An integer that fits 128 bits, signed or not. -/
def integer? (cs : List Char) : Option Int :=
  let value : Option Int :=
    match cs with
    | '0' :: 'x' :: rest => (digits? 16 rest).map Int.ofNat
    | '0' :: 'o' :: rest => (digits? 8 rest).map Int.ofNat
    | '0' :: 'b' :: rest => (digits? 2 rest).map Int.ofNat
    | _ =>
      let (minus, rest) := sign cs
      (decimal? rest).map fun n => if minus then -(n : Int) else n
  match value with
  | some n => if -(Nat.pow 2 127 : Nat) ≤ n ∧ n < (Nat.pow 2 128 : Nat) then some n else none
  | none => none

/-- The characters before and after the first one of a class. -/
def cutAt (p : Char → Bool) (cs : List Char) : List Char × Option (Char × List Char) :=
  match cs.dropWhile fun c => !p c with
  | [] => (cs, none)
  | c :: rest => (cs.takeWhile fun c => !p c, some (c, rest))

/-- Whether a decimal number, given by digits and an exponent, is beyond the largest double. -/
def overflows (mantissa : Nat) (exponent : Int) : Bool :=
  let limit := Nat.pow 2 1024 - Nat.pow 2 970
  if mantissa = 0 then false
  else if 400 < exponent then true
  else if exponent < 0 then
    if exponent < -20000 then false else limit * Nat.pow 10 (-exponent).toNat ≤ mantissa
  else limit ≤ mantissa * Nat.pow 10 exponent.toNat

/-- Whether a text is a float that a double can hold. -/
def isFloat (cs : List Char) : Bool :=
  let body := (sign cs).2
  if body = "inf".toList || body = "nan".toList then true
  else
    let (front, exponentPart) := cutAt (fun c => c = 'e' || c = 'E') body
    let (whole, fractionPart) := cutAt (fun c => c = '.') front
    let fraction := fractionPart.map Prod.snd
    let exponent : Option Int :=
      match exponentPart with
      | none => some 0
      | some (_, rest) =>
        let (minus, digits) := sign rest
        (digits? 10 digits).map fun n => if minus then -(n : Int) else n
    let places := match fraction with
      | none => 0
      | some f => (f.filter fun c => c != '_').length
    let fractionValue := match fraction with
      | none => some 0
      | some f => digits? 10 f
    match decimal? whole, fractionValue, exponent with
    | some w, some f, some e =>
      (fractionPart.isSome || exponentPart.isSome) &&
        !overflows (w * Nat.pow 10 places + f) (e - places)
    | _, _, _ => false

/-- The number written by exactly so many digits at the beginning, and the rest. -/
def takeDigits : Nat → Nat → List Char → Option (Nat × List Char)
  | 0, acc, rest => some (acc, rest)
  | _ + 1, _, [] => none
  | n + 1, acc, c :: rest =>
    match digitIn? 10 c with
    | some d => takeDigits n (acc * 10 + d) rest
    | none => none

def daysOf (year month : Nat) : Nat :=
  if month = 2 then
    if year % 4 = 0 ∧ (year % 100 ≠ 0 ∨ year % 400 = 0) then 29 else 28
  else if month = 4 ∨ month = 6 ∨ month = 9 ∨ month = 11 then 30
  else 31

def afterDate? (cs : List Char) : Option (List Char) :=
  match takeDigits 4 0 cs with
  | some (year, '-' :: cs) =>
    match takeDigits 2 0 cs with
    | some (month, '-' :: cs) =>
      match takeDigits 2 0 cs with
      | some (day, cs) =>
        if 1 ≤ month ∧ month ≤ 12 ∧ 1 ≤ day ∧ day ≤ daysOf year month then some cs else none
      | none => none
    | _ => none
  | _ => none

def afterFraction? : List Char → Option (List Char)
  | '.' :: c :: rest => if c.isDigit then some (rest.dropWhile Char.isDigit) else none
  | '.' :: [] => none
  | cs => some cs

/-- The rest after a time at the beginning; the seconds may be left out. -/
def afterTime? (cs : List Char) : Option (List Char) :=
  match takeDigits 2 0 cs with
  | some (hour, ':' :: cs) =>
    match takeDigits 2 0 cs with
    | some (minute, cs) =>
      if hour ≤ 23 ∧ minute ≤ 59 then
        match cs with
        | ':' :: cs =>
          match takeDigits 2 0 cs with
          | some (second, cs) => if second ≤ 60 then afterFraction? cs else none
          | none => none
        | cs => some cs
      else none
    | none => none
  | _ => none

/-- Whether a text is the offset of a time, or nothing. -/
def isOffset : List Char → Bool
  | [] => true
  | ['Z'] => true
  | ['z'] => true
  | c :: cs =>
    (c = '+' || c = '-') &&
      match takeDigits 2 0 cs with
      | some (hour, ':' :: cs) =>
        match takeDigits 2 0 cs with
        | some (minute, []) => hour ≤ 23 && minute ≤ 59
        | _ => false
      | _ => false

/-- Whether a text is a date, a time, or both. -/
def isDate (cs : List Char) : Bool :=
  match afterDate? cs with
  | some [] => true
  | some (c :: rest) =>
    (c = 'T' || c = 't' || c = ' ') &&
      match afterTime? rest with
      | some rest => isOffset rest
      | none => false
  | none =>
    match afterTime? cs with
    | some rest => rest.isEmpty
    | none => false

def scalar? (cs : List Char) : Option Value :=
  if cs = "true".toList then some (.boolean true)
  else if cs = "false".toList then some (.boolean false)
  else
    match integer? cs with
    | some n => some (.integer n)
    | none => if isFloat cs then some .float else if isDate cs then some .date else none

def isScalarChar (c : Char) : Bool :=
  c.isAlphanum || c = '+' || c = '-' || c = '_' || c = '.' || c = ':'

/-- A scalar at the beginning of a text and the rest; one space may stand between date and time. -/
def takeScalar? (cs : List Char) : Option (Value × List Char) :=
  let word := cs.takeWhile isScalarChar
  let rest := cs.dropWhile isScalarChar
  let long :=
    match rest with
    | ' ' :: c :: more =>
      if c.isDigit && afterDate? word = some [] then
        some (word ++ ' ' :: (c :: more).takeWhile isScalarChar,
          (c :: more).dropWhile isScalarChar)
      else none
    | _ => none
  let (word, rest) := long.getD (word, rest)
  (scalar? word).map fun value => (value, rest)

end ModBench.Toml
