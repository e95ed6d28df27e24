import ModBench.Text.Numeral

/-!
Signals by their names and numbers.
-/

set_option autoImplicit false
set_option relaxedAutoImplicit false

namespace ModBench.Shell

/-- A signal; the number zero stands for the end of the shell. -/
structure Signal where
  number : Nat
  name : String
  /-- What is said of a program that it ended. -/
  words : String := ""
  deriving DecidableEq, Repr, Inhabited

def signals : List Signal :=
  [⟨0, "EXIT", ""⟩, ⟨1, "HUP", "Hangup"⟩, ⟨2, "INT", ""⟩, ⟨3, "QUIT", "Quit"⟩,
    ⟨4, "ILL", "Illegal instruction"⟩, ⟨5, "TRAP", "Trace/breakpoint trap"⟩,
    ⟨6, "ABRT", "Aborted"⟩, ⟨7, "BUS", "Bus error"⟩, ⟨8, "FPE", "Floating point exception"⟩,
    ⟨9, "KILL", "Killed"⟩, ⟨10, "USR1", "User defined signal 1"⟩,
    ⟨11, "SEGV", "Segmentation fault"⟩, ⟨12, "USR2", "User defined signal 2"⟩, ⟨13, "PIPE", ""⟩,
    ⟨14, "ALRM", "Alarm clock"⟩, ⟨15, "TERM", "Terminated"⟩, ⟨17, "CHLD", ""⟩,
    ⟨18, "CONT", ""⟩, ⟨23, "URG", ""⟩, ⟨28, "WINCH", ""⟩]

/-- Signals that do nothing unless something is done for them. -/
def harmless : List String := ["EXIT", "CHLD", "CONT", "URG", "WINCH"]

def signalName? (s : String) : Option String :=
  match Text.digits? s.toList with
  | some n => (signals.find? fun e => e.number == n).map Signal.name
  | none =>
    let name := match s.toList with
      | 'S' :: 'I' :: 'G' :: rest => String.ofList rest
      | _ => s
    if signals.any fun e => e.name == name then some name else none

def signalStatus (number : Nat) : Nat :=
  128 + number

/-- What is said of a command that a signal ended. -/
def signalWords (number : Nat) : String :=
  ((signals.find? fun e => e.number == number).map Signal.words).getD ""

def signalNumber (name : String) : Nat :=
  ((signals.find? fun e => e.name == name).map Signal.number).getD 0

end ModBench.Shell
