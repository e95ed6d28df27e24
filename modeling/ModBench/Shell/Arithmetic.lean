import ModBench.Text.Numeral

/-!
Arithmetic.  Values are whole numbers of 64 bits, and comparisons give one or zero.  An expression
is read by the strength of its operators and then evaluated; assignments set variables.
-/

set_option autoImplicit false
set_option relaxedAutoImplicit false

namespace ModBench.Shell

inductive Operator where
  | or | and | bitOr | bitXor | bitAnd | eq | ne | lt | le | gt | ge | shiftLeft | shiftRight
  | add | sub | mul | div | mod
  deriving DecidableEq, Repr, Inhabited

/-- An arithmetic expression. -/
inductive Formula where
  | number (n : Int)
  | variable (name : String)
  | negated (a : Formula)
  | complement (a : Formula)
  | inverted (a : Formula)
  | applied (op : Operator) (a b : Formula)
  | choice (test yes no : Formula)
  /-- Set a variable, to the value alone or to the result of an operator on its old value. -/
  | assigned (name : String) (op : Option Operator) (value : Formula)
  deriving DecidableEq, Repr, Inhabited

namespace Operator

/-- How strongly an operator binds. -/
def strength : Operator → Nat
  | or => 1
  | and => 2
  | bitOr => 3
  | bitXor => 4
  | bitAnd => 5
  | eq | ne => 6
  | lt | le | gt | ge => 7
  | shiftLeft | shiftRight => 8
  | add | sub => 9
  | mul | div | mod => 10

/-- The operator at the start of a text. -/
def read? : List Char → Option (Operator × List Char)
  | '|' :: '|' :: rest => some (or, rest)
  | '&' :: '&' :: rest => some (and, rest)
  | '=' :: '=' :: rest => some (eq, rest)
  | '!' :: '=' :: rest => some (ne, rest)
  | '<' :: '<' :: rest => some (shiftLeft, rest)
  | '>' :: '>' :: rest => some (shiftRight, rest)
  | '<' :: '=' :: rest => some (le, rest)
  | '>' :: '=' :: rest => some (ge, rest)
  | '<' :: rest => some (lt, rest)
  | '>' :: rest => some (gt, rest)
  | '|' :: rest => some (bitOr, rest)
  | '^' :: rest => some (bitXor, rest)
  | '&' :: rest => some (bitAnd, rest)
  | '+' :: rest => some (add, rest)
  | '-' :: rest => some (sub, rest)
  | '*' :: rest => some (mul, rest)
  | '/' :: rest => some (div, rest)
  | '%' :: rest => some (mod, rest)
  | _ => none

/-- A truth value as a number. -/
def truth (b : Bool) : Int := if b then 1 else 0

/-- The number of 64 bits that stands for a whole number. -/
def wrap (n : Int) : Int := Int.bmod n 0x10000000000000000

def bits (n : Int) : Nat := (n % 0x10000000000000000).toNat

/-- The value of an operator; a division by zero has none. -/
def apply : Operator → Int → Int → Option Int
  | or, a, b => some (truth (a != 0 || b != 0))
  | and, a, b => some (truth (a != 0 && b != 0))
  | bitOr, a, b => some (wrap (bits a ||| bits b))
  | bitXor, a, b => some (wrap (bits a ^^^ bits b))
  | bitAnd, a, b => some (wrap (bits a &&& bits b))
  | eq, a, b => some (truth (a == b))
  | ne, a, b => some (truth (a != b))
  | lt, a, b => some (truth (a < b))
  | le, a, b => some (truth (a ≤ b))
  | gt, a, b => some (truth (b < a))
  | ge, a, b => some (truth (b ≤ a))
  | shiftLeft, a, b => some (wrap (a * (Nat.pow 2 (bits b % 64) : Nat)))
  | shiftRight, a, b => some (a.fdiv (Nat.pow 2 (bits b % 64) : Nat))
  | add, a, b => some (wrap (a + b))
  | sub, a, b => some (wrap (a - b))
  | mul, a, b => some (wrap (a * b))
  | div, a, b => if b = 0 then none else some (wrap (a.tdiv b))
  | mod, a, b => if b = 0 then none else some (wrap (a.tmod b))

end Operator

namespace Formula

/-- What follows blanks. -/
def trimStart (cs : List Char) : List Char :=
  cs.dropWhile fun c => c == ' ' || c == '\t' || c == '\n'

def digitsIn (base : Nat) : List Char → Option Nat :=
  List.foldl (fun acc c => do
    let n ← acc
    let d ← match Text.digit? c with
      | some d => some d
      | none =>
        if 'a' ≤ c ∧ c ≤ 'f' then some (c.toNat - 'a'.toNat + 10)
        else if 'A' ≤ c ∧ c ≤ 'F' then some (c.toNat - 'A'.toNat + 10)
        else none
    if d < base then some (n * base + d) else none) (some 0)

/-- A constant: octal behind a zero, hexadecimal behind a zero and an x. -/
def constant? : List Char → Option Nat
  | [] => none
  | ['0'] => some 0
  | '0' :: 'x' :: rest => if rest.isEmpty then none else digitsIn 16 rest
  | '0' :: 'X' :: rest => if rest.isEmpty then none else digitsIn 16 rest
  | '0' :: rest => digitsIn 8 rest
  | cs => digitsIn 10 cs

def readAssignment? (cs : List Char) : Option (Option Operator × List Char) :=
  match cs with
  | '=' :: '=' :: _ => none
  | '=' :: rest => some (none, rest)
  | _ =>
    match Operator.read? cs with
    | some (op, '=' :: rest) => if 3 ≤ op.strength && !(6 ≤ op.strength && op.strength ≤ 7) then
        some (some op, rest) else none
    | _ => none

mutual

def readOperand : Nat → List Char → Option (Formula × List Char)
  | 0, _ => none
  | fuel + 1, cs =>
    match trimStart cs with
    | '(' :: rest => do
      let (inner, rest) ← readChoice fuel rest
      match trimStart rest with
      | ')' :: rest => pure (inner, rest)
      | _ => none
    | '-' :: rest => (readOperand fuel rest).map fun (a, rest) => (.negated a, rest)
    | '+' :: rest => readOperand fuel rest
    | '~' :: rest => (readOperand fuel rest).map fun (a, rest) => (.complement a, rest)
    | '!' :: rest => (readOperand fuel rest).map fun (a, rest) => (.inverted a, rest)
    | cs =>
      let word := cs.takeWhile fun c => c.isAlphanum || c == '_'
      let rest := cs.drop word.length
      match word.head? with
      | none => none
      | some c =>
        if c.isDigit then (constant? word).map fun n => (.number n, rest)
        else
          match readAssignment? (trimStart rest) with
          | some (op, rest) => (readChoice fuel rest).map fun (value, rest) =>
              (.assigned (String.ofList word) op value, rest)
          | none => some (.variable (String.ofList word), rest)

/-- Operands with operators between them that bind at least as strongly as asked for. -/
def readOperators : Nat → Nat → Formula → List Char → Option (Formula × List Char)
  | 0, _, _, _ => none
  | fuel + 1, least, left, cs =>
    match Operator.read? (trimStart cs) with
    | none => some (left, cs)
    | some (op, rest) =>
      if op.strength < least then some (left, cs)
      else do
        let (right, rest) ← readOperand fuel rest
        let (right, rest) ← readOperators fuel (op.strength + 1) right rest
        readOperators fuel least (.applied op left right) rest

/-- A whole expression. -/
def readChoice : Nat → List Char → Option (Formula × List Char)
  | 0, _ => none
  | fuel + 1, cs => do
    let (first, rest) ← readOperand fuel cs
    let (test, rest) ← readOperators fuel 1 first rest
    match trimStart rest with
    | '?' :: rest => do
      let (yes, rest) ← readChoice fuel rest
      match trimStart rest with
      | ':' :: rest => do
        let (no, rest) ← readChoice fuel rest
        pure (.choice test yes no, rest)
      | _ => none
    | rest => pure (test, rest)

end

/-- The expression that a text is; an empty one is zero. -/
def read? (text : List Char) : Option Formula :=
  if (trimStart text).isEmpty then some (.number 0)
  else
    match readChoice (3 * text.length + 8) text with
    | some (f, rest) => if (trimStart rest).isEmpty then some f else none
    | none => none

/-- The number that a variable's value stands for; an empty one is zero. -/
def numberIn? (value : String) : Option Int :=
  match trimStart value.toList with
  | [] => some 0
  | '-' :: digits => (constant? digits).map fun n => -(n : Int)
  | digits => (constant? digits).map fun n => (n : Int)

/-- The value of an expression and the variables afterwards. -/
def eval {ν : Type} (get : ν → String → String) (set : ν → String → String → ν) :
    Formula → ν → Option (Int × ν)
  | number n, vars => some (Operator.wrap n, vars)
  | .variable name, vars => (numberIn? (get vars name)).map fun n => (n, vars)
  | negated a, vars => (a.eval get set vars).map fun (n, vars) => (Operator.wrap (-n), vars)
  | complement a, vars => (a.eval get set vars).map fun (n, vars) => (-n - 1, vars)
  | inverted a, vars => (a.eval get set vars).map fun (n, vars) => (Operator.truth (n == 0), vars)
  | applied op a b, vars => do
    let (m, vars) ← a.eval get set vars
    if op = .and ∧ m = 0 then pure (0, vars)
    else if op = .or ∧ m ≠ 0 then pure (1, vars)
    else
      let (n, vars) ← b.eval get set vars
      let value ← op.apply m n
      pure (value, vars)
  | choice test yes no, vars => do
    let (t, vars) ← test.eval get set vars
    if t = 0 then no.eval get set vars else yes.eval get set vars
  | assigned name op value, vars => do
    let (n, vars) ← value.eval get set vars
    let result ← match op with
      | none => some n
      | some op => (numberIn? (get vars name)).bind fun old => op.apply old n
    pure (result, set vars name (toString result))

end Formula

end ModBench.Shell
