/-!
Terminal escape sequences.  `strip` removes control sequences (escape `[` or U+009B), operating
system commands, control strings, designations with one argument and two-character sequences, and
passes all other text through.
-/

set_option autoImplicit false
set_option relaxedAutoImplicit false

namespace ModBench.Terminal

def esc : Char := '\x1b'

/-- The bell, which may end an operating system command. -/
def bell : Char := '\x07'

/-- The one-character form of escape and `[`. -/
def introducer : Char := '\u009b'

/-- Parameter and intermediate characters of a control sequence. -/
def isParameter (c : Char) : Bool :=
  0x20 ≤ c.toNat && c.toNat ≤ 0x3f

def isFinal (c : Char) : Bool :=
  0x40 ≤ c.toNat && c.toNat ≤ 0x7e

/-- Final characters of a two-character sequence. -/
def isPairEnd (c : Char) : Bool :=
  0x30 ≤ c.toNat && c.toNat ≤ 0x7e

def opensString (c : Char) : Bool :=
  c = 'P' || c = '^' || c = '_' || c = 'X'

def takesArgument (c : Char) : Bool :=
  c = '(' || c = ')' || c = '*' || c = '+' || c = '#' || c = ' '

/-- Where the reader stands inside a text. -/
inductive Mode where
  /-- In ordinary text. -/
  | plain
  /-- Directly after an escape character. -/
  | escaped
  /-- Inside a control sequence. -/
  | control
  /-- Inside an operating system command (`true`) or a control string (`false`). -/
  | string (command : Bool)
  /-- Inside such a string, directly after an escape character. -/
  | stringEscaped (command : Bool)
  /-- Before the argument character of a designation. -/
  | argument
  deriving DecidableEq, Repr

/-- Ordinary text: the character is kept unless it opens a sequence. -/
def plainStep (c : Char) : Mode × Bool :=
  if c = esc then (.escaped, false)
  else if c = introducer then (.control, false)
  else (.plain, true)

/-- Inside a string: whether the character ends it, or may begin its end. -/
def stringStep (command : Bool) (c : Char) : Mode × Bool :=
  if command && c = bell then (.plain, false)
  else if c = esc then (.stringEscaped command, false)
  else (.string command, false)

def step : Mode → Char → Mode × Bool
  | .plain, c => plainStep c
  | .escaped, c =>
    if c = '[' then (.control, false)
    else if c = ']' then (.string true, false)
    else if opensString c then (.string false, false)
    else if takesArgument c then (.argument, false)
    else if isPairEnd c then (.plain, false)
    else plainStep c
  | .control, c =>
    if isParameter c then (.control, false)
    else if isFinal c then (.plain, false)
    else plainStep c
  | .string command, c => stringStep command c
  | .stringEscaped command, c =>
    if c = '\\' then (.plain, false) else stringStep command c
  | .argument, _ => (.plain, false)

/-- The kept characters of a text read from a mode. -/
def stripFrom : Mode → List Char → List Char
  | _, [] => []
  | mode, c :: rest =>
    match step mode c with
    | (next, true) => c :: stripFrom next rest
    | (next, false) => stripFrom next rest

/-- The text without its escape sequences. -/
def strip (text : List Char) : List Char :=
  stripFrom .plain text

/-- The string without its escape sequences. -/
def stripString (s : String) : String :=
  String.ofList (strip s.toList)

example : stripString "\x1b[31mred\x1b[0m" = "red" := by decide

example : stripString "a\x1b(Bb\x1b7c" = "abc" := by decide

end ModBench.Terminal
