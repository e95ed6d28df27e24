import ModBench.Path

/-!
Arguments of the command line.  Options stand before or behind the subcommand, each at most once on
either side; a value is put behind its option or joined to it.  Two hyphens end the options.

Arguments are text here; of paths that are not, only the current directory and what a disk holds
come into a run.
-/

set_option autoImplicit false
set_option relaxedAutoImplicit false

namespace ModBench.Cli

/-- How diagnostics are printed. -/
inductive OutputFormat where
  | text
  | json
  deriving DecidableEq, Repr, Inhabited

/-- A subcommand without its arguments. -/
inductive Verb where
  | check
  | serve
  | new
  | deploy
  | undeploy
  | package
  deriving DecidableEq, Repr, Inhabited

def Verb.ofName? (name : String) : Option Verb :=
  if name = "check" then some check
  else if name = "serve" then some serve
  else if name = "new" then some new
  else if name = "deploy" then some deploy
  else if name = "undeploy" then some undeploy
  else if name = "package" then some package
  else none

/-- How many operands a subcommand takes at most; none if there is no bound. -/
def Verb.maxOperands : Verb → Option Nat
  | check => none
  | serve => some 0
  | _ => some 1

/-- A subcommand with its arguments. -/
inductive Command where
  | check (files : List Path) (workspace : Option Path) (format : OutputFormat)
  | serve
  | new (workspace : Path)
  | deploy (file : Path)
  | undeploy (file : Path)
  | package (file : Path)
  deriving DecidableEq, Repr, Inhabited

/-- All that a command line asks for. -/
structure Invocation where
  command : Command
  /-- The user's configuration file, instead of the usual one. -/
  config : Option Path := none
  verbose : Bool := false
  deriving DecidableEq, Repr, Inhabited

/-- What to do when a command line asks for no subcommand to be run. -/
inductive Detour where
  /-- The arguments make no sense. -/
  | usage
  /-- Print the help of a subcommand, or of the whole program. -/
  | help (verb : Option Verb)
  | version
  deriving DecidableEq, Repr, Inhabited

/-- An option that stands alone. -/
inductive Switch where
  | verbose
  | help
  | version
  deriving DecidableEq, Repr

/-- An option with a value. -/
inductive Setting where
  | config
  | workspace
  | format
  deriving DecidableEq, Repr

inductive CliOption where
  | switch (s : Switch)
  | setting (s : Setting)
  deriving DecidableEq, Repr

/-- Whether an option may be given at a place: in front of the subcommand (none) or behind one. -/
def CliOption.isAllowed (verb : Option Verb) : CliOption → Bool
  | switch .version => verb.isNone
  | setting .workspace => verb == some .check
  | setting .format => verb == some .check
  | _ => true

def longOption? (verb : Option Verb) (name : String) : Option CliOption :=
  let found :=
    if name = "config" then some (CliOption.setting .config)
    else if name = "verbose" then some (.switch .verbose)
    else if name = "help" then some (.switch .help)
    else if name = "version" then some (.switch .version)
    else if name = "workspace" then some (.setting .workspace)
    else if name = "format" then some (.setting .format)
    else none
  found.filter fun o => o.isAllowed verb

def shortOption? (verb : Option Verb) (letter : Char) : Option CliOption :=
  let found :=
    if letter = 'c' then some (CliOption.setting .config)
    else if letter = 'v' then some (.switch .verbose)
    else if letter = 'h' then some (.switch .help)
    else if letter = 'V' then some (.switch .version)
    else if letter = 'w' then some (.setting .workspace)
    else if letter = 'f' then some (.setting .format)
    else none
  found.filter fun o => o.isAllowed verb

/-- What was given on one side of the subcommand so far. -/
structure Given where
  verbose : Bool := false
  config : Option Path := none
  workspace : Option Path := none
  format : Option OutputFormat := none
  /-- The operands, the first one first. -/
  operands : List Path := []
  deriving DecidableEq, Repr, Inhabited

/-- The path of a nonempty text. -/
def pathValue? (value : List Char) : Option Path :=
  if value.isEmpty then none else some (.ofString (String.ofList value))

def formatValue? (value : List Char) : Option OutputFormat :=
  if value = "text".toList then some .text
  else if value = "json".toList then some .json
  else none

/-- Something given once only. -/
def once {α : Type} (old new : Option α) : Except Detour (Option α) :=
  match old, new with
  | none, some a => .ok (some a)
  | _, _ => .error .usage

/-- Take the value of an option. -/
def Given.set (g : Given) (s : Setting) (value : List Char) : Except Detour Given :=
  match s with
  | .config => (once g.config (pathValue? value)).map fun v => { g with config := v }
  | .workspace => (once g.workspace (pathValue? value)).map fun v => { g with workspace := v }
  | .format => (once g.format (formatValue? value)).map fun v => { g with format := v }

/-- Take an option that stands alone. -/
def Given.switch (g : Given) (verb : Option Verb) (s : Switch) : Except Detour Given :=
  match s with
  | .verbose => if g.verbose then .error .usage else .ok { g with verbose := true }
  | .help => .error (.help verb)
  | .version => .error .version

/-- Take an operand of a subcommand. -/
def Given.addOperand (g : Given) (verb : Verb) (text : List Char) : Except Detour Given :=
  match pathValue? text with
  | none => .error .usage
  | some p =>
    match verb.maxOperands with
    | some bound =>
      if g.operands.length < bound then .ok { g with operands := g.operands ++ [p] }
      else .error .usage
    | none => .ok { g with operands := g.operands ++ [p] }

/-- A value without an equals sign in front. -/
def dropEquals : List Char → List Char
  | '=' :: rest => rest
  | text => text

/-- Take the letters of one argument; the answer names the option that still waits for its value. -/
def takeLetters (verb : Option Verb) (g : Given) :
    List Char → Except Detour (Given × Option Setting)
  | [] => .ok (g, none)
  | letter :: rest =>
    match shortOption? verb letter with
    | none => .error .usage
    | some (.switch s) =>
      match g.switch verb s with
      | .ok g => takeLetters verb g rest
      | .error detour => .error detour
    | some (.setting s) =>
      if rest.isEmpty then .ok (g, some s)
      else (g.set s (dropEquals rest)).map fun g => (g, none)

def takeLong (verb : Option Verb) (g : Given) (text : List Char) :
    Except Detour (Given × Option Setting) :=
  let name := text.takeWhile fun c => c ≠ '='
  let value := text.drop name.length
  match longOption? verb (String.ofList name) with
  | none => .error .usage
  | some (.switch s) =>
    if value.isEmpty then (g.switch verb s).map fun g => (g, none) else .error .usage
  | some (.setting s) =>
    if value.isEmpty then .ok (g, some s)
    else (g.set s (dropEquals value)).map fun g => (g, none)

/-- What an argument is by its look. -/
inductive Shape where
  /-- Two hyphens alone. -/
  | separator
  | long (text : List Char)
  | letters (text : List Char)
  | word (text : List Char)
  deriving DecidableEq, Repr

/-- The look of an argument. -/
def shapeOf (text : List Char) : Shape :=
  match text with
  | ['-', '-'] => .separator
  | '-' :: '-' :: rest => .long rest
  | '-' :: c :: rest => .letters (c :: rest)
  | _ => .word text

def takeOperands (verb : Verb) (g : Given) : List String → Except Detour Given
  | [] => .ok g
  | arg :: rest =>
    match g.addOperand verb arg.toList with
    | .ok g => takeOperands verb g rest
    | .error detour => .error detour

def takeBehind (verb : Verb) (g : Given) (waiting : Option Setting) :
    List String → Except Detour Given
  | [] => if waiting.isSome then .error .usage else .ok g
  | arg :: rest =>
    match shapeOf arg.toList, waiting with
    | .word text, some s =>
      match g.set s text with
      | .ok g => takeBehind verb g none rest
      | .error detour => .error detour
    | .word text, none =>
      match g.addOperand verb text with
      | .ok g => takeBehind verb g none rest
      | .error detour => .error detour
    | _, some _ => .error .usage
    | .separator, none => takeOperands verb g rest
    | .long text, none =>
      match takeLong (some verb) g text with
      | .ok (g, waiting) => takeBehind verb g waiting rest
      | .error detour => .error detour
    | .letters text, none =>
      match takeLetters (some verb) g text with
      | .ok (g, waiting) => takeBehind verb g waiting rest
      | .error detour => .error detour

/-- What is asked for with the words behind `help`. -/
def helpFor : List String → Detour
  | [] => .help none
  | [name] =>
    if name = "help" then .help none
    else
      match Verb.ofName? name with
      | some verb => .help (some verb)
      | none => .usage
  | _ => .usage

/-- A subcommand with what was given behind it. -/
def commandOf (verb : Verb) (g : Given) : Except Detour Command :=
  match verb, g.operands with
  | .check, [] => .error .usage
  | .check, files => .ok (.check files g.workspace (g.format.getD .text))
  | .serve, _ => .ok .serve
  | .new, [] => .ok (.new (Path.ofString "."))
  | .new, workspace :: _ => .ok (.new workspace)
  | .deploy, file :: _ => .ok (.deploy file)
  | .undeploy, file :: _ => .ok (.undeploy file)
  | .package, file :: _ => .ok (.package file)
  | _, [] => .error .usage

def invoke (verb : Verb) (front : Given) (args : List String) : Except Detour Invocation :=
  match takeBehind verb {} none args with
  | .error detour => .error detour
  | .ok behind =>
    (commandOf verb behind).map fun command =>
      ⟨command, behind.config <|> front.config, behind.verbose || front.verbose⟩

def takeFront (g : Given) (waiting : Option Setting) : List String → Except Detour Invocation
  | [] => .error .usage
  | arg :: rest =>
    match shapeOf arg.toList, waiting with
    | .word text, some s =>
      match g.set s text with
      | .ok g => takeFront g none rest
      | .error detour => .error detour
    | .word _, none =>
      if arg = "help" then .error (helpFor rest)
      else
        match Verb.ofName? arg with
        | some verb => invoke verb g rest
        | none => .error .usage
    | _, some _ => .error .usage
    | .separator, none => .error .usage
    | .long text, none =>
      match takeLong none g text with
      | .ok (g, waiting) => takeFront g waiting rest
      | .error detour => .error detour
    | .letters text, none =>
      match takeLetters none g text with
      | .ok (g, waiting) => takeFront g waiting rest
      | .error detour => .error detour

def parseArguments (args : List String) : Except Detour Invocation :=
  takeFront {} none args

example : (parseArguments ["-v", "check", "a.reds", "-wsub", "--format=json"]).toOption =
    some ⟨.check [Path.ofString "a.reds"] (some (Path.ofString "sub")) .json, none, true⟩ := by
  decide

end ModBench.Cli
