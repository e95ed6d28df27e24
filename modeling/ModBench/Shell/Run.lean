import ModBench.Shell.Condition
import ModBench.Shell.Expansion
import ModBench.Shell.Format
import ModBench.Shell.Signal

/-!
Running commands.  What a command does is a function from states to states; how deep commands may
nest and how often loops may turn is bounded by a number of steps.  The shell is there for machines
that are run; no result is about it.
-/

set_option autoImplicit false
set_option relaxedAutoImplicit false

namespace ModBench.Shell

open Files (Place)
open Host (Tool)

abbrev Runs := Command → State → State

/-! ### Redirections -/

def openWords (fault : Files.Fault) (isMade : Bool) : String :=
  match fault.kind with
  | .notFound => if isMade then "Directory nonexistent" else "No such file"
  | .isADirectory => "Is a directory"
  | .notADirectory => "Not a directory"
  | .permissionDenied => "Permission denied"
  | _ => "No such file"

/-- Whether a path names one of the shell's own channels. -/
def ownChannel? (st : State) (p : String) : Option Channel :=
  if p = "/dev/null" then some .lost
  else if p = "/dev/stdout" then st.channel? 1
  else if p = "/dev/stderr" then st.channel? 2
  else none

def openOutputFile (st : State) (isAppended : Bool) (descriptor : Nat) (p : String) :
    Except State State :=
  match ownChannel? st p with
  | some channel => .ok (st.setChannel descriptor (some channel))
  | none =>
    let path := Path.ofString p
    let made := if isAppended then st.disk.touch path else st.disk.write path []
    match made with
    | .error fault => .error (st.complain ("cannot create " ++ p ++ ": " ++ openWords fault true) 2)
    | .ok disk =>
      match disk.locate path with
      | .ok place => .ok ({ st with disk := disk }.setChannel descriptor (some (.file place)))
      | .error _ => .ok { st with disk := disk }

/-- Carry a redirection out; a failure is told. -/
def redirect (run : Substitution) (r : Redirection) (st : State) : Except State State :=
  let (target, st) := expandText run r.target st
  match r.mode with
  | .write => openOutputFile st false r.descriptor target
  | .append => openOutputFile st true r.descriptor target
  | .read =>
    if target = "/dev/null" then .ok { st with input := [] }
    else
      match st.disk.read (Path.ofString target) with
      | .ok content => .ok { st with input := content.data }
      | .error fault =>
        .error (st.complain ("cannot open " ++ target ++ ": " ++ openWords fault false) 2)
  | .duplicate =>
    if target = "-" then
      .ok (if r.descriptor = 0 then { st with input := [] } else st.setChannel r.descriptor none)
    else
      match (Text.digits? target.toList).bind st.channel? with
      | some channel => .ok (st.setChannel r.descriptor (some channel))
      | none =>
        if target = "0" then .ok st
        else .error (st.complain (target ++ ": Bad file descriptor") 2)

/-- Carry redirections out one after the other. -/
def redirectAll (run : Substitution) : List Redirection → State → Except State State
  | [], st => .ok st
  | r :: rest, st =>
    match redirect run r st with
    | .ok st => redirectAll run rest st
    | .error st => .error st

/-- Give the descriptors back that were changed, and the input if it was. -/
def restore (before : State) (redirections : List Redirection) (st : State) : State :=
  { st with
    descriptors := before.descriptors,
    input := if redirections.any fun r => r.descriptor == 0 then before.input else st.input }

/-- Do something with redirections in force. -/
def redirected (run : Substitution) (redirections : List Redirection) (f : State → State)
    (st : State) : State :=
  match redirectAll run redirections st with
  | .ok inner => restore st redirections (f inner)
  | .error inner => restore st redirections inner

/-! ### Programs -/

/-- What was found under a name. -/
inductive Found where
  | tool (t : Tool)
  | denied
  | missing

/-- Look a program up. -/
def findTool (st : State) (name : String) : Found :=
  if name.contains '/' then
    match st.disk.walk true (Path.ofString name) with
    | .error _ => .missing
    | .ok (.vacant directory last) =>
      match st.toolbox.at? (directory ++ [last]) with
      | some t => .tool t
      | none => .missing
    | .ok (.node place) =>
      match st.toolbox.at? place with
      | some t => .tool t
      | none => .denied
  else
    match st.toolbox name with
    | some t => .tool t
    | none => .missing

def runTool (name : String) (args : List String) (settings : List (String × String)) (st : State) :
    State :=
  match findTool st name with
  | .missing => st.complain (name ++ ": not found") 127
  | .denied => st.complain (name ++ ": Permission denied") 126
  | .tool t =>
    let result := t
      { name := name, args := args, environment := st.environmentFor settings, disk := st.disk,
        input := st.input }
    let st := { st with disk := { result.disk with cwd := st.disk.cwd }, input := result.unread }
    let isLost := !result.stdout.isEmpty && (st.channel? 1).isNone
    let st := (st.write 1 result.stdout).write 2 result.stderr
    match result.status with
    | some status =>
      if isLost then
        let words := name ++ ": write error: Bad file descriptor\n"
        (st.write 2 (Text.encodeString words)).withStatus 1
      else st.withStatus status
    | none =>
      let words := signalWords result.signal
      (st.write 2 (Text.encodeString (if words.isEmpty then "" else words ++ "\n"))).withStatus
        (signalStatus result.signal)

/-! ### Commands of the shell itself -/

/-- Run a script in this shell. -/
def runText (next : Runs) (text : List Char) (st : State) : State :=
  match readScript text with
  | .ok c =>
    let after := next c { st with lines := text.count '\n' + 1 }
    { after with lines := st.lines }
  | .error fault => { st.complain ("Syntax error: " ++ fault) 2 with flow := .exiting }

def runWaiting (next : Runs) (st : State) : State :=
  let waiting := st.waiting
  waiting.foldl
    (fun st job =>
      let before := st.descriptors
      let st := st.apart fun st => next job.1 { st with descriptors := job.2, input := [] }
      { st with descriptors := before, status := 0 })
    { st with waiting := [] }

/-- Set variables from assignments. -/
def setAll (run : Substitution) : List (String × Word) → State → State
  | [], st => st
  | (name, value) :: rest, st =>
    let (text, st) := expandText run value st
    setAll run rest (st.setVariable name (some text))

def valuesOf (run : Substitution) : List (String × Word) → State → List (String × String) × State
  | [], st => ([], st)
  | (name, value) :: rest, st =>
    let (text, st) := expandText run value st
    let (more, st) := valuesOf run rest st
    ((name, text) :: more, st)

/-- A line of the input and what follows it; the line end is missing at the end of the input. -/
def takeLine : List UInt8 → List UInt8 × Option (List UInt8)
  | [] => ([], none)
  | b :: rest =>
    if b = 10 then ([], some rest)
    else
      let (line, more) := takeLine rest
      (b :: line, more)

/-- A line without its backslashes, each of which protects the character behind it. -/
def dropBackslashes : List Char → List Char
  | [] => []
  | ['\\'] => []
  | '\\' :: c :: rest => c :: dropBackslashes rest
  | c :: rest => c :: dropBackslashes rest

/-- Give the fields of a line to variables; the last one takes what is left. -/
def assignFields (isBreak : Char → Bool) : List String → List Char → State → State
  | [], _, st => st
  | [name], text, st =>
    let text := text.dropWhile isBreak
    st.setVariable name (some (String.ofList (text.reverse.dropWhile isBreak).reverse))
  | name :: rest, text, st =>
    let text := text.dropWhile isBreak
    let field := text.takeWhile fun c => !isBreak c
    assignFields isBreak rest (text.drop field.length)
      (st.setVariable name (some (String.ofList field)))

def readLine (args : List String) (st : State) : State :=
  let isRaw := args.head? == some "-r"
  let names := args.filter fun a => a != "-r"
  let (line, rest) := takeLine st.input
  let text := (Text.decodeLossy line).toList
  let text := if isRaw then text else dropBackslashes text
  let st := { st with input := rest.getD [], status := if rest.isSome then 0 else 1 }
  assignFields (fun c => (separators st).contains c) (if names.isEmpty then ["REPLY"] else names)
    text st

/-- Go to another directory. -/
def changeDirectory (args : List String) (st : State) : State :=
  let target := (args.filter fun a => a != "-P" && a != "-L").head?
  let path := target.getD ((st.valueOf? "HOME").getD "")
  match st.disk.locate (Path.ofString path) with
  | .ok place =>
    if st.disk.tree.find? place = some .directory then
      let st := { st with disk := { st.disk with cwd := place }, status := 0 }
      st.setVariable "PWD" (some st.disk.currentDirectory.toString)
    else st.complain ("cd: can't cd to " ++ path) 2
  | .error _ => st.complain ("cd: can't cd to " ++ path) 2

/-- A signal reaches the shell. -/
def receiveSignal (next : Runs) (signal : String) (st : State) : State :=
  if signal = "KILL" then { st with flow := .killed (signalNumber signal) }
  else
    match st.traps.find? fun t => t.1 == signal with
    | some (_, action) => runText next action.toList st
    | none => 
      if harmless.contains signal then st else { st with flow := .killed (signalNumber signal) }

def sendSignal (next : Runs) (args : List String) (st : State) : State :=
  let (signal, targets) := match args with
    | "-s" :: name :: rest => (signalName? name, rest)
    | first :: rest =>
      match first.toList with
      | '-' :: name => (signalName? (String.ofList name), rest)
      | _ => (some "TERM", args)
    | [] => (some "TERM", [])
  match signal with
  | none => st.complain ("kill: invalid signal number or name: " ++ args.headD "") 2
  | some signal =>
    if targets.contains processNumber then receiveSignal next signal (st.withStatus 0)
    else st.complain "kill: No such process" 1

/-- Say what is to be done for signals. -/
def setTrap (args : List String) (st : State) : State :=
  match args with
  | "-" :: names =>
    let names := names.filterMap signalName?
    { st with traps := st.traps.filter fun t => !names.contains t.1, status := 0 }
  | action :: names =>
    let names := names.filterMap signalName?
    { st with
      traps := names.map (fun n => (n, action)) ++ st.traps.filter fun t => !names.contains t.1,
      status := 0 }
  | [] => st.withStatus 0

/-- Change options and arguments. -/
def setOptions : List String → State → State
  | [], st => st.withStatus 0
  | "--" :: args, st => { st with args := args, status := 0 }
  | "-o" :: _ :: rest, st => setOptions rest st
  | "+o" :: _ :: rest, st => setOptions rest st
  | first :: rest, st =>
    match first.toList with
    | '-' :: letters =>
      setOptions rest (if letters.contains 'e' then { st with failsFast := true } else st)
    | '+' :: letters =>
      setOptions rest (if letters.contains 'e' then { st with failsFast := false } else st)
    | _ => { st with args := first :: rest, status := 0 }

/-- Make variables visible to commands. -/
def exportAll : List String → State → State
  | [], st => st.withStatus 0
  | arg :: rest, st =>
    let name := String.ofList (arg.toList.takeWhile isNameChar)
    let st := match arg.toList.drop name.length with
      | '=' :: value => st.setVariable name (some (String.ofList value))
      | _ => st
    exportAll rest { st with exported := name :: st.exported }

/-- A number that a command takes, with a value for a missing one. -/
def countArgument (default : Nat) (args : List String) : Option Nat :=
  match args.head? with
  | none => some default
  | some a => Text.digits? a.toList

def leave (flow : Flow) (name : String) (args : List String) (st : State) : State :=
  match countArgument st.status args with
  | some n => { st with status := n % 256, flow := flow }
  | none =>
    { st.complain (name ++ ": Illegal number: " ++ args.headD "") 2 with flow := .exiting }

/-- Commands that are part of the shell. -/
def ownCommands : List String :=
  [":", "true", "false", "echo", "printf", "pwd", "cd", "test", "[", "exit", "return", "break",
    "continue", "shift", "set", "export", "unset", "read", "eval", "exec", "wait", "kill", "trap",
    "command", "local", "umask", "."]

/-- Write something under a command's name; that fails where there is nowhere to write to. -/
def printed (name : String) (bytes : List UInt8) (st : State) : State :=
  if !bytes.isEmpty && (st.channel? 1).isNone then
    st.complain (name ++ ": " ++ name ++ ": I/O error") 1
  else (st.write 1 bytes).withStatus 0

def runCondition (name : String) (words : List String) (st : State) : State :=
  match condition st.disk (words.length + 1) words with
  | .ok holds => st.withStatus (if holds then 0 else 1)
  | .error fault => st.complain (name ++ ": " ++ fault) 2

/-- Where a name leads to, as a text. -/
def locationOf? (st : State) (name : String) : Option String :=
  if ownCommands.contains name || (st.functions.any fun f => f.1 == name) then some name
  else if (st.toolbox name).isSome then some ("/usr/bin/" ++ name)
  else none

/-- Run one of the shell's own commands. -/
def runOwn (next : Runs) (name : String) (args : List String) (st : State) : State :=
  match name with
  | "false" => st.withStatus 1
  | "echo" => printed name (echoEscaped args) st
  | "printf" =>
    match args with
    | [] => st.complain "printf: usage: printf format [arg ...]" 2
    | format :: rest =>
      let result := formatted {} format rest
      let st := printed name result.output st
      result.faults.foldl
        (fun st a => st.complain ("printf: " ++ a ++ ": expected numeric value") 1) st
  | "pwd" => printed name (Text.encodeString (st.disk.currentDirectory.toString ++ "\n")) st
  | "cd" => changeDirectory args st
  | "test" => runCondition "test" args st
  | "[" =>
    if args.getLast? = some "]" then runCondition "[" args.dropLast st
    else st.complain "[: missing ]" 2
  | "exit" => leave .exiting name args st
  | "return" => leave .returning name args st
  | "break" => { st with flow := .breaking ((countArgument 1 args).getD 1), status := 0 }
  | "continue" => { st with flow := .continuing ((countArgument 1 args).getD 1), status := 0 }
  | "shift" =>
    let n := (countArgument 1 args).getD 1
    if st.args.length < n then
      { st.complain "shift: can't shift that many" 2 with flow := .exiting }
    else { st with args := st.args.drop n, status := 0 }
  | "set" => setOptions args st
  | "export" => exportAll args st
  | "local" =>
    args.foldl
      (fun st arg => (exportAll [arg] st).withStatus 0)
      (st.withStatus 0)
  | "unset" =>
    args.foldl
      (fun st a =>
        { st.setVariable a none with functions := st.functions.filter fun f => f.1 != a })
      (st.withStatus 0)
  | "read" => readLine args st
  | "eval" => runText next (" ".intercalate args).toList (st.withStatus 0)
  | "wait" => (runWaiting next st).withStatus 0
  | "kill" => sendSignal next args st
  | "trap" => setTrap args st
  | "command" =>
    match args with
    | ["-v", name] =>
      match locationOf? st name with
      | some text => printed name (Text.encodeString (text ++ "\n")) st
      | none => st.withStatus 127
    | _ => st.withStatus 0
  | "." =>
    match st.disk.read (Path.ofString (args.headD "")) with
    | .ok content => runText next (Text.decodeLossy content.data).toList st
    | .error _ =>
      { st.complain (".: cannot open " ++ args.headD "" ++ ": No such file") 2 with
        flow := .exiting }
  | _ => st.withStatus 0

def runFunction (next : Runs) (body : Command) (args : List String) (st : State) : State :=
  let after := next body { st with args := args }
  { after with args := st.args, flow := if after.flow = .returning then .on else after.flow }

def runNamed (next : Runs) (name : String) (args : List String)
    (settings : List (String × String)) (st : State) : State :=
  match st.functions.find? fun f => f.1 == name with
  | some (_, body) => runFunction next body args st
  | none =>
    if ownCommands.contains name then
      match name, args with
      | "command", first :: rest =>
        if first = "-v" then runOwn next name args st
        else if ownCommands.contains first then runOwn next first rest st
        else runTool first rest settings st
      | _, _ =>
        runOwn next name args (settings.foldl (fun st s => st.setVariable s.1 (some s.2)) st)
    else runTool name args settings st

/-- Whether a failed redirection of a command ends the shell. -/
def isSpecial (name : String) : Bool :=
  [":", "exit", "return", "break", "continue", "shift", "set", "export", "unset", "eval", "exec",
    "trap", "."].contains name

def runSimple (run : Substitution) (next : Runs) (settings : List (String × Word))
    (words : List Word) (redirections : List Redirection) (st : State) : State :=
  let (fields, st) := expandAll run words st
  if st.flow ≠ .on then st
  else
    match fields with
    | [] =>
      let before := if settings.any fun s => s.2.any fun p => p matches .output _ _ then st
        else st.withStatus 0
      redirected run redirections (setAll run settings) before
    | "exec" :: rest =>
      match redirectAll run redirections st with
      | .error st => { st with flow := .exiting }
      | .ok st =>
        match rest with
        | [] => st.withStatus 0
        | name :: args =>
          let (values, st) := valuesOf run settings st
          match findTool st name with
          | .tool _ => { runTool name args values st with flow := .exiting }
          | _ => { st.complain ("exec: " ++ name ++ ": not found") 127 with flow := .exiting }
    | name :: args =>
      let (values, st) := valuesOf run settings st
      match redirectAll run redirections st with
      | .ok inner => restore st redirections (runNamed next name args values inner)
      | .error inner =>
        let st := restore st redirections inner
        if isSpecial name then { st with flow := .exiting } else st

/-! ### All commands -/

/-- Let a failure end the shell, where it has to. -/
def heed (st : State) : State :=
  if st.failsFast && !st.isTested && st.status != 0 && st.flow == .on then
    { st with flow := .exiting }
  else st

/-- Do something whose outcome is tested. -/
def tested (f : State → State) (st : State) : State :=
  { f { st with isTested := true } with isTested := st.isTested }

/-- Do something for each field until the loop is left. -/
def forEach (f : State → State) (name : String) : List String → State → State
  | [], st => st
  | field :: rest, st =>
    let after := f (st.setVariable name (some field))
    match after.flow with
    | .on => forEach f name rest after
    | .breaking n => { after with flow := if n ≤ 1 then .on else .breaking (n - 1) }
    | .continuing n =>
      if n ≤ 1 then forEach f name rest { after with flow := .on }
      else { after with flow := .continuing (n - 1) }
    | _ => after

/-- Whether one of the patterns matches a text. -/
def matchesAny (run : Substitution) (subject : List Char) : List Word → State → Bool × State
  | [], st => (false, st)
  | w :: rest, st =>
    let (marks, st) := expandPieces run pieceBound w st
    if (patternOfMarks marks).fits subject then (true, st) else matchesAny run subject rest st

/-- The commands of the first arm that matches a text. -/
def chooseArm (run : Substitution) (subject : List Char) :
    List (List Word × Command) → State → Option Command × State
  | [], st => (none, st)
  | (patterns, body) :: rest, st =>
    let (isMatch, st) := matchesAny run subject patterns st
    if isMatch then (some body, st) else chooseArm run subject rest st

def run : Nat → Command → State → State
  | 0, _, st => { st with flow := .exiting }
  | fuel + 1, c, st =>
    let substitute : Substitution := fun script st =>
      st.collecting (runText (run fuel) script)
    if st.flow ≠ .on then st
    else
      match c with
      | .nothing => st
      | .simple linesAfter settings words redirections =>
        heed (runSimple substitute (run fuel) settings words redirections
          { st with line := st.lines - linesAfter })
      | .sequence first second => run fuel second (run fuel first st)
      | .both first second =>
        let st := tested (run fuel first) st
        if st.status = 0 then run fuel second st else st
      | .either first second =>
        let st := tested (run fuel first) st
        if st.status = 0 then st else run fuel second st
      | .inverted body =>
        let st := tested (run fuel body) st
        st.withStatus (if st.status = 0 then 1 else 0)
      | .pipe first second =>
        let (n, inner) := st.openOutput
        let after := inner.apart fun st => run fuel first (st.setChannel 1 (some (.collected n)))
        let bytes := after.collected n
        let after := { after with outputs := after.outputs.set n [] }
        let final := after.apart fun st => run fuel second { st with input := bytes }
        heed { final with input := after.input }
      | .background body =>
        { st with waiting := st.waiting ++ [(body, st.descriptors)], status := 0 }
      | .apart body => heed (st.apart (run fuel body))
      | .redirected body redirections => redirected substitute redirections (run fuel body) st
      | .choice test yes no =>
        let st := tested (run fuel test) st
        if st.flow ≠ .on then st
        else if st.status = 0 then run fuel yes st
        else run fuel no (st.withStatus 0)
      | .loop wanted test body =>
        let st := tested (run fuel test) st
        if st.flow ≠ .on then st
        else if (st.status == 0) != wanted then st.withStatus 0
        else
          let st := run fuel body st
          match st.flow with
          | .on => run fuel (.loop wanted test body) st
          | .breaking n => { st with flow := if n ≤ 1 then .on else .breaking (n - 1) }
          | .continuing n =>
            if n ≤ 1 then run fuel (.loop wanted test body) { st with flow := .on }
            else { st with flow := .continuing (n - 1) }
          | _ => st
      | .each name words body =>
        let (fields, st) := match words with
          | some words => expandAll substitute words st
          | none => (st.args, st)
        forEach (run fuel body) name fields (st.withStatus 0)
      | .cases subject arms =>
        let (text, st) := expandText substitute subject st
        match chooseArm substitute text.toList arms st with
        | (some body, st) => run fuel body (st.withStatus 0)
        | (none, st) => st.withStatus 0
      | .function name body =>
        { st with
          functions := (name, body) :: st.functions.filter fun f => f.1 != name, status := 0 }

/-- How many steps one after the other, or one inside the other, a script may take. -/
def stepBound : Nat := 1000000

/-- Run a script to its end, with what is left to do then. -/
def runToEnd (text : List Char) (st : State) : State :=
  let st := runText (run stepBound) text st
  match st.flow with
  | .killed _ => st
  | _ =>
    let st : State := match st.traps.find? fun t => t.1 == "EXIT" with
      | some (_, action) =>
        let after : State :=
          runText (run stepBound) action.toList { st with flow := .on, traps := [] }
        if after.flow = .exiting then after else { after with status := st.status }
      | none => st
    let status := st.status
    (runWaiting (run stepBound) { st with flow := .on }).withStatus status

end ModBench.Shell
