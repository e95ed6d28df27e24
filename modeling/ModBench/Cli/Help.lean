import ModBench.Cli.Arguments

/-!
What the program says about itself.
-/

set_option autoImplicit false
set_option relaxedAutoImplicit false

namespace ModBench.Cli

def programName : String := "reds"

def programVersion : String := "0.0.0"

def versionText : String := programName ++ " " ++ programVersion ++ "\n"

/-- A subcommand's name. -/
def Verb.name : Verb → String
  | check => "check"
  | serve => "serve"
  | new => "new"
  | deploy => "deploy"
  | undeploy => "undeploy"
  | package => "package"

/-- What a subcommand does. -/
def Verb.summary : Verb → String
  | check => "Lint files once and print their diagnostics"
  | serve => "Start the language server on stdio"
  | new => "Scaffold a new mod project"
  | deploy => "Copy a script into the game's script folder"
  | undeploy => "Remove a deployed copy of a script from the game's script folder"
  | package => "Package the mod containing a script into a zip archive"

def Verb.operands : Verb → String
  | check => " <FILES>..."
  | serve => ""
  | new => " [WORKSPACE]"
  | _ => " <FILE>"

/-- All subcommands. -/
def verbs : List Verb := [.check, .serve, .new, .deploy, .undeploy, .package]

def helpLine (width : Nat) (name meaning : String) : String :=
  let blanks := String.ofList (List.replicate (width - name.length) ' ')
  "  " ++ name ++ blanks ++ "  " ++ meaning ++ "\n"

/-- The options of every subcommand. -/
def commonOptions (width : Nat) : String :=
  helpLine width "-c, --config <CONFIG>" "User configuration file (replaces ~/.reds/config.toml)" ++
    helpLine width "-v, --verbose" "Also write logs to stderr" ++
    helpLine width "-h, --help" "Print help"

def checkOptions : String :=
  helpLine 26 "-w, --workspace <WORKSPACE>"
      "Lint the whole workspace rooted here instead of each file alone" ++
    helpLine 26 "-f, --format <FORMAT>"
      "Output format [default: text] [possible values: text, json]"

def programHelp : String :=
  "reds - redscript diagnostics and mod project tooling\n\nUsage: reds [OPTIONS] <COMMAND>\n\n" ++
    "Commands:\n" ++ String.join (verbs.map fun v => helpLine 8 v.name v.summary) ++
    helpLine 8 "help" "Print this message or the help of the given subcommand(s)" ++
    "\nOptions:\n" ++ commonOptions 21 ++ helpLine 21 "-V, --version" "Print version"

def verbHelp (v : Verb) : String :=
  v.summary ++ "\n\nUsage: reds " ++ v.name ++ " [OPTIONS]" ++ v.operands ++ "\n\nOptions:\n" ++
    if v = .check then checkOptions ++ commonOptions 26 else commonOptions 21

def helpText : Option Verb → String
  | none => programHelp
  | some v => verbHelp v

/-- What is said when the arguments make no sense. -/
def usageText : String :=
  "error: invalid arguments\n\nUsage: reds [OPTIONS] <COMMAND>\n\n" ++
    "For more information, try '--help'.\n"

end ModBench.Cli
