/-!
Shell commands.  A word is a list of pieces, each quoted or not; what a piece stands for is found
out when the command is run.

The shell and its programs stand in for those of a system when machines are run.  The linter takes
whatever programs a machine has, and no result is about these.
-/

set_option autoImplicit false
set_option relaxedAutoImplicit false

namespace ModBench.Shell

/-- What a dollar sign names. -/
inductive Parameter where
  | variable (name : String)
  /-- The script's name for zero, an argument for any other number. -/
  | position (n : Nat)
  | count
  /-- All arguments, as fields of their own where they are quoted. -/
  | all
  /-- All arguments, as one field where they are quoted. -/
  | joined
  | status
  | process
  deriving DecidableEq, Repr, Inhabited

/-- What becomes of the value of a parameter.  Words are kept as they are written. -/
inductive Alteration where
  | keep
  | length
  /-- A word for a parameter without a value; `orEmpty` asks so of an empty one too. -/
  | orElse (orEmpty : Bool) (word : List Char)
  /-- The same, and the parameter is set to it. -/
  | orSet (orEmpty : Bool) (word : List Char)
  | instead (orEmpty : Bool) (word : List Char)
  /-- The value without a match of a pattern at its start. -/
  | dropStart (longest : Bool) (pattern : List Char)
  /-- The value without a match of a pattern at its end. -/
  | dropEnd (longest : Bool) (pattern : List Char)
  deriving DecidableEq, Repr, Inhabited

inductive Piece where
  | plain (text : List Char) (quoted : Bool)
  | parameter (which : Parameter) (alteration : Alteration) (quoted : Bool)
  | output (script : List Char) (quoted : Bool)
  /-- The value of an arithmetic expression. -/
  | sum (text : List Char) (quoted : Bool)
  deriving DecidableEq, Repr, Inhabited

abbrev Word := List Piece

/-- What a redirection does with its descriptor. -/
inductive Mode where
  | read
  | write
  | append
  /-- Make it the same as another one, or close it. -/
  | duplicate
  deriving DecidableEq, Repr, Inhabited

structure Redirection where
  descriptor : Nat
  mode : Mode
  target : Word
  deriving DecidableEq, Repr, Inhabited

inductive Command where
  | nothing
  /-- A program or one of the shell's own commands; `linesAfter` line ends follow its start. -/
  | simple (linesAfter : Nat) (settings : List (String × Word)) (words : List Word)
      (redirections : List Redirection)
  | sequence (first second : Command)
  | both (first second : Command)
  | either (first second : Command)
  | inverted (body : Command)
  /-- The first command's output is the second one's input. -/
  | pipe (first second : Command)
  | background (body : Command)
  /-- A command in a copy of the shell. -/
  | apart (body : Command)
  | redirected (body : Command) (redirections : List Redirection)
  | choice (test yes no : Command)
  | loop (wanted : Bool) (test body : Command)
  /-- Runs the body with a variable set to each field in turn; to each argument without words. -/
  | each (name : String) (words : Option (List Word)) (body : Command)
  | cases (subject : Word) (arms : List (List Word × Command))
  | function (name : String) (body : Command)
  deriving Repr, Inhabited

end ModBench.Shell
