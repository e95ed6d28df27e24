import ModBench.Shell.Arithmetic
import ModBench.Text.Utf8

/-!
Formatted output.  Escapes begin with a backslash and stand for bytes; conversions begin with a
percent sign and take an argument each.  The format is used again while arguments are left.
-/

set_option autoImplicit false
set_option relaxedAutoImplicit false

namespace ModBench.Shell

/-- Which escapes are known besides the common ones. -/
structure EscapeStyle where
  /-- Whether bytes can be given in hexadecimal. -/
  hexadecimal : Bool := false
  /-- Whether octal digits stand behind a zero. -/
  leadingZero : Bool := false
  deriving DecidableEq, Repr, Inhabited

/-- The byte that a letter behind a backslash stands for. -/
def letterEscape? (c : Char) : Option UInt8 :=
  match c with
  | 'a' => some 7
  | 'b' => some 8
  | 't' => some 9
  | 'n' => some 10
  | 'v' => some 11
  | 'f' => some 12
  | 'r' => some 13
  | '\\' => some 92
  | _ => none

def isOctal (c : Char) : Bool :=
  '0' ≤ c && c ≤ '7'

def isHexadecimal (c : Char) : Bool :=
  c.isDigit || ('a' ≤ c && c ≤ 'f') || ('A' ≤ c && c ≤ 'F')

def byteIn (base : Nat) (digits rest : List Char) : Option (List UInt8) × List Char :=
  (some [UInt8.ofNat ((Formula.digitsIn base digits).getD 0)], rest.drop digits.length)

/-- What a backslash stands for together with the text behind it; none if the output ends here. -/
def unescape (style : EscapeStyle) (cs : List Char) : Option (List UInt8) × List Char :=
  match cs with
  | [] => (some [92], [])
  | 'c' :: rest => (none, rest)
  | 'x' :: rest =>
    let digits := (rest.take 2).takeWhile isHexadecimal
    if style.hexadecimal ∧ digits ≠ [] then byteIn 16 digits rest
    else (some (Text.encode ['\\', 'x']), rest)
  | c :: rest =>
    match letterEscape? c with
    | some byte => (some [byte], rest)
    | none =>
      if style.leadingZero then
        if c = '0' then byteIn 8 ((rest.take 3).takeWhile isOctal) rest
        else (some (Text.encode ['\\', c]), rest)
      else if isOctal c then byteIn 8 ((cs.take 3).takeWhile isOctal) cs
      else (some (Text.encode ['\\', c]), rest)

/-- A text with its escapes replaced, and whether one of them ends the output. -/
def unescapeAll (style : EscapeStyle) : Nat → List Char → List UInt8 × Bool
  | 0, _ => ([], false)
  | _ + 1, [] => ([], false)
  | fuel + 1, '\\' :: rest =>
    match unescape style rest with
    | (none, _) => ([], true)
    | (some bytes, rest) =>
      let (more, isOver) := unescapeAll style fuel rest
      (bytes ++ more, isOver)
  | fuel + 1, c :: rest =>
    let (more, isOver) := unescapeAll style fuel rest
    (Text.encodeChar c ++ more, isOver)

def echoEscaped (words : List String) : List UInt8 :=
  let (newline, words) : List UInt8 × List String := match words with
    | "-n" :: rest => ([], rest)
    | words => ([10], words)
  let text := (" ".intercalate words).toList
  let (bytes, isOver) := unescapeAll { leadingZero := true } (text.length + 1) text
  if isOver then bytes else bytes ++ newline

/-- What an echo that knows no escapes writes. -/
def echoPlain (words : List String) : List UInt8 :=
  match words with
  | "-n" :: rest => Text.encodeString (" ".intercalate rest)
  | words => Text.encodeString (" ".intercalate words ++ "\n")

structure Conversion where
  flags : List Char := []
  width : Nat := 0
  precision : Option Nat := none
  kind : Char
  deriving DecidableEq, Repr, Inhabited

/-- A part of a format. -/
inductive Segment where
  | bytes (data : List UInt8)
  | conversion (c : Conversion)
  /-- The output ends here. -/
  | stop
  deriving DecidableEq, Repr, Inhabited

/-- The conversion behind a percent sign. -/
def readConversion (cs : List Char) : Option (Conversion × List Char) :=
  let flags := cs.takeWhile fun c => ['-', '+', ' ', '0', '#'].contains c
  let cs := cs.drop flags.length
  let width := cs.takeWhile Char.isDigit
  let cs := cs.drop width.length
  let (precision, cs) := match cs with
    | '.' :: rest =>
      let digits := rest.takeWhile Char.isDigit
      (some ((Text.digits? digits).getD 0), rest.drop digits.length)
    | cs => (none, cs)
  match cs with
  | kind :: rest => some (⟨flags, (Text.digits? width).getD 0, precision, kind⟩, rest)
  | [] => none

/-- The parts of a format. -/
def segmentsOf (style : EscapeStyle) : Nat → List Char → List Segment
  | 0, _ => []
  | _ + 1, [] => []
  | fuel + 1, '\\' :: rest =>
    match unescape style rest with
    | (none, _) => [.stop]
    | (some bytes, rest) => .bytes bytes :: segmentsOf style fuel rest
  | fuel + 1, '%' :: '%' :: rest => .bytes [37] :: segmentsOf style fuel rest
  | fuel + 1, '%' :: rest =>
    match readConversion rest with
    | some (c, rest) => .conversion c :: segmentsOf style fuel rest
    | none => [.bytes [37]]
  | fuel + 1, c :: rest => .bytes (Text.encodeChar c) :: segmentsOf style fuel rest

/-- What formatting wrote, and the arguments that are no numbers where one is needed. -/
structure Formatted where
  output : List UInt8 := []
  faults : List String := []
  isOver : Bool := false
  deriving DecidableEq, Repr, Inhabited

namespace Conversion

/-- A text filled up to the width. -/
def pad (c : Conversion) (bytes : List UInt8) : List UInt8 :=
  let blanks := List.replicate (c.width - bytes.length) (32 : UInt8)
  if c.flags.contains '-' then bytes ++ blanks else blanks ++ bytes

/-- Digits with a sign, filled up to the precision and to the width. -/
def padNumber (c : Conversion) (sign digits : List Char) : List UInt8 :=
  let zeros := match c.precision with
    | some n => n - digits.length
    | none =>
      if c.flags.contains '0' && !c.flags.contains '-' then
        c.width - (sign.length + digits.length)
      else 0
  c.pad (Text.encode (sign ++ List.replicate zeros '0' ++ digits))

/-- The number in an argument; a quote asks for the number of the character behind it. -/
def numberIn? (arg : String) : Option Int :=
  match arg.toList with
  | '\'' :: d :: _ => some d.toNat
  | '"' :: d :: _ => some d.toNat
  | '+' :: digits => (Formula.constant? digits).map fun n => (n : Int)
  | [] => none
  | _ => Formula.numberIn? arg

def unsigned (c : Conversion) (base : Nat) (mark : String) (n : Int) : List UInt8 :=
  let sign := if c.flags.contains '#' && n != 0 then mark.toList else []
  c.padNumber sign (Nat.toDigits base (Operator.bits n))

/-- The text of an argument. -/
def render (c : Conversion) (arg : String) : Formatted :=
  let text := match c.precision with
    | some n => (Text.encodeString arg).take n
    | none => Text.encodeString arg
  match c.kind with
  | 's' => { output := c.pad text }
  | 'c' => { output := c.pad ((Text.encodeString arg).take 1) }
  | 'b' =>
    let (bytes, isOver) := unescapeAll { leadingZero := true } (arg.length + 1) arg.toList
    { output := c.pad bytes, isOver := isOver }
  | kind =>
    let n := numberIn? arg
    let value := n.getD 0
    let output := match kind with
      | 'x' => c.unsigned 16 "0x" value
      | 'X' => (c.unsigned 16 "0X" value).map fun b => if 97 ≤ b ∧ b ≤ 122 then b - 32 else b
      | 'o' => c.unsigned 8 "0" value
      | 'u' => c.unsigned 10 "" value
      | _ =>
        let sign :=
          if value < 0 then ['-']
          else if c.flags.contains '+' then ['+']
          else if c.flags.contains ' ' then [' ']
          else []
        c.padNumber sign (Nat.toDigits 10 value.natAbs)
    { output := output, faults := if n.isNone && !arg.isEmpty then [arg] else [] }

end Conversion

/-- Write the parts of a format once: what was written and the arguments left over. -/
def formatOnce : List Segment → List String → Formatted × List String
  | [], args => ({}, args)
  | .stop :: _, args => ({ isOver := true }, args)
  | .bytes data :: rest, args =>
    let (more, args) := formatOnce rest args
    ({ more with output := data ++ more.output }, args)
  | .conversion c :: rest, args =>
    let here := c.render (args.head?.getD "")
    if here.isOver then (here, args.tail)
    else
      let (more, args) := formatOnce rest args.tail
      ({ more with output := here.output ++ more.output, faults := here.faults ++ more.faults },
        args)

/-- Write a format again and again until no argument is left. -/
def formatRounds (segments : List Segment) : Nat → List String → Formatted
  | 0, _ => {}
  | rounds + 1, args =>
    let (here, left) := formatOnce segments args
    if here.isOver || left.isEmpty || left.length == args.length then here
    else
      let more := formatRounds segments rounds left
      { more with output := here.output ++ more.output, faults := here.faults ++ more.faults }

/-- Write arguments in a format. -/
def formatted (style : EscapeStyle) (format : String) (args : List String) : Formatted :=
  formatRounds (segmentsOf style (format.length + 1) format.toList) (args.length + 1) args

end ModBench.Shell
