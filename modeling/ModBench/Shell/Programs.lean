import ModBench.Shell.Condition
import ModBench.Shell.Format
import ModBench.Shell.Run

/-!
Common programs: printing, reading and counting text, looking at directories, and the shell itself.
They are there for machines that are run, as the shell is; no result is about them.
-/

set_option autoImplicit false
set_option relaxedAutoImplicit false

namespace ModBench.Shell

open Host (Tool ToolCall ToolResult Toolbox)

/-! ### Input -/

/-- How much is read of a source that never ends. -/
def endlessLength : Nat := 1048576

/-- What a program reads under a name, where a hyphen is its input. -/
def operand (c : ToolCall) (name : String) : Except String (List UInt8) :=
  if name = "-" ∨ name = "/dev/stdin" then .ok c.input
  else if name = "/dev/null" then .ok []
  else if name = "/dev/zero" then .ok (List.replicate endlessLength 0)
  else
    match c.disk.read (Path.ofString name) with
    | .ok content => .ok content.data
    | .error fault =>
      .error (match fault.kind with
        | .notFound => "No such file or directory"
        | .isADirectory => "Is a directory"
        | .notADirectory => "Not a directory"
        | _ => "Permission denied")

/-- The first word that is no option. -/
def operandsOf (args : List String) : List String :=
  args.filter fun a => a == "-" || !(a.startsWith "-")

/-- The input of a program that reads one file, or its standard input. -/
def source (c : ToolCall) (names : List String) : Except String (List UInt8) :=
  match names.head? with
  | some name => (operand c name).mapError fun fault => name ++ ": " ++ fault
  | none => .ok c.input

/-- Read one source and write something about it. -/
def filtered (c : ToolCall) (names : List String) (f : List UInt8 → List UInt8) : ToolResult :=
  match source c names with
  | .ok bytes => { c.writes (f bytes) with unread := [] }
  | .error fault => c.complains fault 1

/-- Write what stands in files one after the other. -/
def concatenated (c : ToolCall) : List String → ToolResult
  | [] => c.ends 0
  | name :: rest =>
    let more := concatenated c rest
    match operand c name with
    | .ok bytes => { more with stdout := bytes ++ more.stdout }
    | .error fault =>
      { more with stderr := c.complaint (name ++ ": " ++ fault) ++ more.stderr, status := some 1 }

/-- Write files or the input. -/
def cat : Tool := fun c =>
  let names := operandsOf c.args
  { concatenated c (if names.isEmpty then ["-"] else names) with unread := [] }

/-! ### Lines -/

def linesWithEnds : List UInt8 → List (List UInt8)
  | [] => []
  | b :: rest =>
    if b = 10 then [b] :: linesWithEnds rest
    else
      match linesWithEnds rest with
      | [] => [[b]]
      | line :: more => (b :: line) :: more

/-- The number behind an option, in the same word or in the next one. -/
def optionNumber? (option : String) : List String → Option Nat
  | [] => none
  | a :: rest =>
    if a = option then rest.head?.bind fun n => Text.digits? n.toList
    else if a.startsWith option then Text.digits? (a.toList.drop option.length)
    else optionNumber? option rest

/-- The words that are neither options nor their numbers. -/
def operandsAround (options : List String) : List String → List String
  | [] => []
  | a :: rest =>
    if options.contains a then operandsAround options (rest.drop 1)
    else if a.startsWith "-" && a != "-" then operandsAround options rest
    else a :: operandsAround options rest
termination_by args => args.length
decreasing_by
  all_goals simp only [List.length_cons, List.length_drop]
  all_goals omega

/-- The text up to the end of its n-th line. -/
def firstLines : Nat → List UInt8 → List UInt8
  | 0, _ => []
  | _ + 1, [] => []
  | n + 1, b :: rest => b :: firstLines (if b = 10 then n else n + 1) rest

/-- How many lines are written when no number is given. -/
def usualLines (args : List String) : Nat :=
  (args.findSome? fun a => match a.toList with
    | '-' :: digits => Text.digits? digits
    | _ => none).getD 10

/-- The first lines or bytes. -/
def head : Tool := fun c =>
  let names := operandsAround ["-n", "-c"] c.args
  filtered c names fun bytes =>
    match optionNumber? "-c" c.args, optionNumber? "-n" c.args with
    | some n, _ => bytes.take n
    | none, n => firstLines (n.getD (usualLines c.args)) bytes

/-- The last lines or bytes. -/
def tail : Tool := fun c =>
  let names := operandsAround ["-n", "-c"] c.args
  filtered c names fun bytes =>
    match optionNumber? "-c" c.args, optionNumber? "-n" c.args with
    | some n, _ => bytes.drop (bytes.length - n)
    | none, n =>
      let lines := linesWithEnds bytes
      (lines.drop (lines.length - n.getD (usualLines c.args))).flatten

/-- How many words a text has. -/
def countWords (isInWord : Bool) : List UInt8 → Nat
  | [] => if isInWord then 1 else 0
  | b :: rest =>
    if b = 32 ∨ (9 ≤ b ∧ b ≤ 13) then (if isInWord then 1 else 0) + countWords false rest
    else countWords true rest

def column (width n : Nat) : String :=
  let digits := toString n
  String.ofList (List.replicate (width - digits.length) ' ') ++ digits

/-- Count lines, words and bytes. -/
def wc : Tool := fun c =>
  let names := operandsOf c.args
  let letters := (c.args.filter fun a => a.startsWith "-").flatMap fun a => a.toList.drop 1
  filtered c names fun bytes =>
    let wanted (l : Char) := letters.isEmpty || letters.contains l
    let counts := (if wanted 'l' then [bytes.count 10] else []) ++
      (if wanted 'w' then [countWords false bytes] else []) ++
      (if wanted 'c' || wanted 'm' then [bytes.length] else [])
    let width := if counts.length = 1 then 1
      else if names.isEmpty then 7 else (toString bytes.length).length
    let text := " ".intercalate (counts.map (column width) ++ names.take 1)
    Text.encodeString (text ++ "\n")

/-- Whether a text may stand before another one. -/
def bytesPrecede : List UInt8 → List UInt8 → Bool
  | [], _ => true
  | _ :: _, [] => false
  | a :: as, b :: bs => if a < b then true else if b < a then false else bytesPrecede as bs

/-- Lines in order. -/
def sort : Tool := fun c =>
  filtered c (operandsOf c.args) fun bytes =>
    let lines := (linesWithEnds bytes).map fun line => line.filter fun b => b != 10
    let number (line : List UInt8) : Int :=
      ((Text.decodeLossy line).trimAscii.toString.toInt?).getD 0
    let sorted := lines.mergeSort fun a b =>
      if c.args.contains "-n" then number a ≤ number b else bytesPrecede a b
    let unique := if c.args.contains "-u" then sorted.eraseDups else sorted
    let ordered := if c.args.contains "-r" then unique.reverse else unique
    ordered.flatMap fun line => line ++ [10]

def characterSet : List UInt8 → List UInt8
  | a :: 45 :: b :: rest =>
    (List.range (b.toNat + 1 - a.toNat)).map (fun n => UInt8.ofNat (a.toNat + n)) ++
      characterSet rest
  | a :: rest => a :: characterSet rest
  | [] => []

def setArgument (arg : String) : List UInt8 :=
  characterSet (unescapeAll {} (arg.length + 1) arg.toList).1

/-- Replace or delete characters. -/
def tr : Tool := fun c =>
  let isDeletion := c.args.contains "-d"
  match (operandsOf c.args).map setArgument with
  | [targets] =>
    if isDeletion then filtered c [] fun bytes => bytes.filter fun b => !targets.contains b
    else c.complains "missing operand" 1
  | targets :: values :: _ =>
    filtered c [] fun bytes => bytes.map fun b =>
      match targets.findIdx? fun t => t == b with
      | some n => (values[n]?).getD (values.getLastD b)
      | none => b
  | [] => c.complains "missing operand" 1

/-- Copy the input to files and to the output. -/
def tee : Tool := fun c =>
  let disk := (operandsOf c.args).foldl
    (fun (d : Files.Disk) name =>
      (d.write (Path.ofString name) c.input).toOption.getD d) c.disk
  { c.writes c.input with disk := disk, unread := [] }

/-! ### Output -/

/-- Write words; escapes count only where they are asked for. -/
def echo : Tool := fun c =>
  match c.args with
  | "-e" :: rest =>
    let text := (" ".intercalate rest).toList
    let (bytes, isOver) :=
      unescapeAll { hexadecimal := true, leadingZero := true } (text.length + 1) text
    c.writes (if isOver then bytes else bytes ++ [10])
  | "-E" :: rest => c.writes (echoPlain rest)
  | args => c.writes (echoPlain args)

/-- Write arguments in a format. -/
def printf : Tool := fun c =>
  match c.args with
  | [] => c.complains "missing operand" 1
  | format :: rest =>
    let result := formatted { hexadecimal := true } format rest
    { c.writes result.output with
      stderr := result.faults.flatMap fun a =>
        c.complaint ("'" ++ a ++ "': expected a numeric value"),
      status := some (if result.faults.isEmpty then 0 else 1) }

/-- Whole numbers in a row. -/
def numbers (first step last : Int) : Nat → List Int
  | 0 => []
  | fuel + 1 =>
    if (0 < step ∧ last < first) ∨ (step < 0 ∧ first < last) ∨ step = 0 then []
    else first :: numbers (first + step) step last fuel

/-- Write whole numbers. -/
def seq : Tool := fun c =>
  let row (first step last : Int) :=
    c.prints (String.join ((numbers first step last ((last - first).natAbs + 1)).map fun n =>
      toString n ++ "\n"))
  match c.args.map fun a => wholeNumber? a with
  | [some last] => row 1 1 last
  | [some first, some last] => row first 1 last
  | [some first, some step, some last] => row first step last
  | [] => c.complains "missing operand" 1
  | _ => c.complains ("invalid floating point argument: " ++ c.args.headD "") 1

/-- Write a line again and again, as much as any reader will take. -/
def yes : Tool := fun c =>
  let line := Text.encodeString ((if c.args.isEmpty then "y" else " ".intercalate c.args) ++ "\n")
  c.writes (List.replicate (endlessLength / line.length) line).flatten

/-- Write the values of environment variables. -/
def printenv : Tool := fun c =>
  let values := c.args.filterMap c.environment
  { c.prints (String.join (values.map fun v => v ++ "\n")) with
    status := some (if values.length = c.args.length then 0 else 1) }

/-- The names in a path. -/
def namesOf (p : String) : List (List Char) :=
  (Text.split '/' p.toList).filter fun name => !name.isEmpty

/-- The last name in a path, without an ending. -/
def basename : Tool := fun c =>
  match c.args with
  | [] => c.complains "missing operand" 1
  | p :: rest =>
    let name := String.ofList ((namesOf p).getLastD ['/'])
    let ending := rest.headD ""
    let kept := if name.endsWith ending && name != ending then
      (name.dropEnd ending.length).toString else name
    c.prints (kept ++ "\n")

/-- The path without its last name. -/
def dirname : Tool := fun c =>
  match c.args with
  | [] => c.complains "missing operand" 1
  | p :: _ =>
    let above := Text.join '/' (namesOf p).dropLast
    let text := if p.startsWith "/" then '/' :: above else if above.isEmpty then ['.'] else above
    c.prints (String.ofList text ++ "\n")

/-! ### Directories -/

/-- Write the directory that the program runs in. -/
def pwd : Tool := fun c => c.prints (c.disk.currentDirectory.toString ++ "\n")

/-- Write the names in a directory. -/
def ls : Tool := fun c =>
  let showsAll := c.args.any fun a => a.startsWith "-" && a.contains 'a'
  let showsHidden := showsAll || c.args.any fun a => a.startsWith "-" && a.contains 'A'
  let listing (name : String) : String :=
    let names := (namesIn c.disk name.toList).filter fun n => showsHidden || n.head? != some '.'
    let names := if showsAll then [['.'], ['.', '.']] ++ names else names
    String.join (names.map fun n => String.ofList n ++ "\n")
  match operandsOf c.args with
  | [] => c.prints (listing ".")
  | names =>
    let missing := names.filter fun n => !(c.disk.exists? (Path.ofString n))
    let files := names.filter fun n => nodeHas c.disk n fun node => node != .directory
    let directories := names.filter fun n => nodeHas c.disk n fun node => node == .directory
    let blocks := directories.map fun n =>
      if names.length = 1 then listing n else n ++ ":\n" ++ listing n
    let first := String.join (files.map fun n => n ++ "\n")
    { c.prints ("\n".intercalate ((if files.isEmpty then [] else [first]) ++ blocks)) with
      stderr := missing.flatMap fun n =>
        c.complaint ("cannot access '" ++ n ++ "': No such file or directory"),
      status := some (if missing.isEmpty then 0 else 2) }

def changing (f : Files.Disk → Path → Files.Disk) : Tool := fun c =>
  { c.ends 0 with disk := (operandsOf c.args).foldl (fun d n => f d (Path.ofString n)) c.disk }

def mkdir : Tool := changing fun d p => (d.makeDirectories p).2

/-- Make files that do not exist. -/
def touch : Tool := changing fun d p => (d.touch p).toOption.getD d

/-- Take files and directories away. -/
def rm : Tool := changing fun d p => d.removeAll p

def test : Tool := fun c =>
  match condition c.disk (c.args.length + 1) c.args with
  | .ok holds => c.ends (if holds then 0 else 1)
  | .error fault => c.complains fault 2

/-- Test a condition that ends in a bracket. -/
def bracket : Tool := fun c =>
  if c.args.getLast? = some "]" then test { c with args := c.args.dropLast }
  else c.complains "missing ']'" 2

/-! ### The shell -/

/-- What a shell was asked for. -/
structure Request where
  /-- Whether the first operand is a script. -/
  isCommand : Bool := false
  failsFast : Bool := false
  operands : List String := []
  deriving DecidableEq, Repr, Inhabited

/-- Read the options of a shell. -/
def Request.ofArgs : List String → Request → Request
  | [], r => r
  | "--" :: rest, r => { r with operands := rest }
  | first :: rest, r =>
    match first.toList with
    | '-' :: letters =>
      if letters.isEmpty then { r with operands := rest }
      else
        Request.ofArgs rest
          { r with
            isCommand := r.isCommand || letters.contains 'c',
            failsFast := r.failsFast || letters.contains 'e' }
    | '+' :: _ => Request.ofArgs rest r
    | _ => { r with operands := first :: rest }

/-- The state in which a shell begins. -/
def startState (toolbox : Toolbox) (c : ToolCall) (r : Request) (name : String)
    (args : List String) (input : List UInt8) : State :=
  let st : State :=
    { disk := c.disk, toolbox := toolbox, environment := c.environment, name := name, args := args,
      input := input, failsFast := r.failsFast }
  st.setVariable "PWD" (some c.disk.currentDirectory.toString)

def shell (toolbox : Toolbox) : Tool := fun c =>
  let r := Request.ofArgs c.args {}
  let finish (text : List Char) (name : String) (args : List String) (input : List UInt8) :
      ToolResult :=
    let st := runToEnd text (startState toolbox c r name args input)
    { stdout := st.collected 0, stderr := st.collected 1,
      status := match st.flow with
        | .killed _ => none
        | _ => some st.status,
      signal := match st.flow with
        | .killed signal => signal
        | _ => 0,
      disk := st.disk, unread := st.input }
  match r.isCommand, r.operands with
  | true, script :: name :: args => finish script.toList name args c.input
  | true, [script] => finish script.toList c.name [] c.input
  | true, [] => c.complains "0: -c requires an argument" 2
  | false, [] => finish (Text.decodeLossy c.input).toList c.name [] []
  | false, file :: args =>
    match c.disk.read (Path.ofString file) with
    | .ok content => finish (Text.decodeLossy content.data).toList file args c.input
    | .error _ => c.complains ("0: cannot open " ++ file ++ ": No such file") 2

/-! ### All programs -/

/-- The programs that start no other program. -/
def simpleTool? : Toolbox
  | "true" => some fun c => c.ends 0
  | "false" => some fun c => c.ends 1
  | "sleep" => some fun c => c.ends 0
  | "echo" => some echo
  | "printf" => some printf
  | "cat" => some cat
  | "head" => some head
  | "tail" => some tail
  | "wc" => some wc
  | "sort" => some sort
  | "tr" => some tr
  | "tee" => some tee
  | "seq" => some seq
  | "yes" => some yes
  | "printenv" => some printenv
  | "basename" => some basename
  | "pwd" => some pwd
  | "ls" => some ls
  | "mkdir" => some mkdir
  | "touch" => some touch
  | "rm" => some rm
  | "dirname" => some dirname
  | "test" => some test
  | "[" => some bracket
  | _ => none

/-- Run another program with more variables in its environment. -/
def env (toolbox : Toolbox) : Tool := fun c =>
  let isSetting (a : String) := a.contains '='
  let settings := c.args.takeWhile isSetting
  let environment : Environment := fun name =>
    match settings.find? fun s => s.startsWith (name ++ "=") with
    | some s => some (s.drop (name.length + 1)).toString
    | none => c.environment name
  match c.args.dropWhile isSetting with
  | [] => c.ends 0
  | name :: args =>
    match toolbox name with
    | some tool => tool { c with name := name, args := args, environment := environment }
    | none =>
      { c.ends 127 with
        stderr := Text.encodeString
          ("env: '" ++ name ++ "': No such file or directory\n") }

/-- The programs of the system, where programs may start programs to a depth. -/
def toolsWithin : Nat → Toolbox
  | 0, name => simpleTool? name
  | depth + 1, name =>
    match name with
    | "sh" => some (shell (toolsWithin depth))
    | "dash" => some (shell (toolsWithin depth))
    | "env" => some (env (toolsWithin depth))
    | _ => simpleTool? name

def systemTools : Toolbox := toolsWithin 8

end ModBench.Shell
