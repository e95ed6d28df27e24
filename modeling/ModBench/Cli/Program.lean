import ModBench.Cli.Check
import ModBench.Cli.Help
import ModBench.Config.Load
import ModBench.Host.Machine
import ModBench.Project.Deploy
import ModBench.Project.Package
import ModBench.Project.Scaffold

/-!
The program.  A run of it reads the arguments, opens the log and carries the subcommand out; a
failure is told with its causes, each on a line of its own.
-/

set_option autoImplicit false
set_option relaxedAutoImplicit false

namespace ModBench.Cli

open Files (Disk)
open Host (Machine)

/-- What a run of the program leaves behind. -/
structure Output where
  stdout : String := ""
  stderr : String := ""
  status : Nat := 0
  deriving DecidableEq, Repr, Inhabited

/-- A failure: what was wanted, and the causes, the nearest first. -/
structure Failure where
  message : String
  causes : List String := []
  deriving DecidableEq, Repr, Inhabited

namespace Failure

/-- A text with something behind each line end in it. -/
def indentBehind (margin : String) (text : String) : String :=
  String.ofList (text.toList.flatMap fun c => if c = '\n' then c :: margin.toList else [c])

/-- A number with blanks in front of it, five places wide. -/
def numberText (n : Nat) : String :=
  let digits := toString n
  String.ofList (List.replicate (5 - digits.length) ' ') ++ digits

/-- A cause among several. -/
def numberedLine (n : Nat) (cause : String) : String :=
  numberText n ++ ": " ++ indentBehind "       " cause ++ "\n"

def numberedLines (n : Nat) : List String → String
  | [] => ""
  | cause :: rest => numberedLine n cause ++ numberedLines (n + 1) rest

def causesText : List String → String
  | [] => ""
  | [cause] => "\nCaused by:\n    " ++ indentBehind "    " cause ++ "\n"
  | causes => "\nCaused by:\n" ++ numberedLines 0 causes

def text (f : Failure) : String :=
  "Error: " ++ f.message ++ "\n" ++ causesText f.causes

def ofProject (fault : ProjectFault) : Failure :=
  ⟨fault.message, fault.causes⟩

def output (f : Failure) : Output :=
  { stderr := f.text, status := 1 }

end Failure

/-- The places for the log, in the order in which they are tried. -/
def logFiles (home : Path) : List Path :=
  [((home.child ".reds").child "logs").child "reds.log",
    ((Path.ofString ".reds").child "logs").child "reds.log"]

/-- Open the log at the first place where that is possible. -/
def openLog (d : Disk) : List Path → Disk
  | [] => d
  | file :: rest =>
    match d.makeDirectories (file.parent?.getD .empty) with
    | (.error _, d) => openLog d rest
    | (.ok (), d) =>
      match d.touch file with
      | .ok d => d
      | .error _ => openLog d rest

def loadConfig (m : Machine) (user workspace : Option Path) : Except Failure Config.Layer :=
  let user := user.getD (Config.userFile m.home)
  match Config.load m.disk (some user) (some (workspace.getD m.disk.currentDirectory)) with
  | .ok layer => .ok layer
  | .error fault => .error ⟨"failed to load configuration", fault.message :: fault.causes⟩

def runCheck (m : Machine) (config : Config.Layer) (files : List Path) (workspace : Option Path)
    (format : OutputFormat) : Output × Machine :=
  match collect Machine.execute (config.lintSettings m.environment) m.disk.currentDirectory files
      workspace m with
  | (.error (missing, collected), m) =>
    let told := String.join (collected.failures.map failureLine)
    let failure : Failure :=
      ⟨"cannot lint without compiler configuration", [missing.message]⟩
    ({ stderr := told ++ failure.text, status := 1 }, m)
  | (.ok outcome, m) =>
    let told := String.join (outcome.failures.map failureLine)
    match report? format outcome.snapshot with
    | some printed =>
      ({ stdout := printed, stderr := told, status := if outcome.passed then 0 else 1 }, m)
    | none =>
      let failure : Failure := ⟨"serialize diagnostics", ["path contains invalid UTF-8 characters"]⟩
      ({ stderr := told ++ failure.text, status := 1 }, m)

/-- The output of a run that did what it says. -/
def done (words : String) : Output :=
  { stdout := words ++ "\n" }

/-- Make a new mod. -/
def runNew (m : Machine) (workspace : Path) : Output × Machine :=
  match newMod m.disk workspace with
  | (.ok main, d) => (done ("Created " ++ main.toString), { m with disk := d })
  | (.error fault, d) =>
    let failure : Failure :=
      ⟨"failed to scaffold a mod in " ++ workspace.toString, fault.message :: fault.causes⟩
    (failure.output, { m with disk := d })

/-- The folder for deployed scripts, or why there is none for what is to be done. -/
def deploymentFolder (m : Machine) (config : Config.Layer) (toDo : String) : Except Failure Path :=
  match config.deploymentFolder m.environment with
  | .ok folder => .ok folder
  | .error missing => .error ⟨"cannot " ++ toDo ++ " without a game directory", [missing.message]⟩

def runDeploy (m : Machine) (config : Config.Layer) (file : Path) : Output × Machine :=
  match deploymentFolder m config "deploy" with
  | .error failure => (failure.output, m)
  | .ok scripts =>
    match deploy m.disk file scripts with
    | (.ok destination, d) => (done ("Deployed " ++ destination.toString), { m with disk := d })
    | (.error fault, d) => ((Failure.ofProject fault).output, { m with disk := d })

/-- What is said of a script that was taken back. -/
def undeployedWords : Undeployed → String
  | .removed path => "Removed " ++ path.toString
  | .notDeployed path => path.toString ++ " is not deployed"

/-- Take a deployed script back. -/
def runUndeploy (m : Machine) (config : Config.Layer) (file : Path) : Output × Machine :=
  match deploymentFolder m config "undeploy" with
  | .error failure => (failure.output, m)
  | .ok scripts =>
    match undeploy m.disk file scripts with
    | (.ok outcome, d) => (done (undeployedWords outcome), { m with disk := d })
    | (.error fault, d) => ((Failure.ofProject fault).output, { m with disk := d })

def runPackage (m : Machine) (file : Path) : Output × Machine :=
  match packageMod m.disk file with
  | (.ok archive, d) => (done ("Packaged " ++ archive.toString), { m with disk := d })
  | (.error fault, d) => ((Failure.ofProject fault).output, { m with disk := d })

/-- Do something with the configuration, if it can be loaded. -/
def withConfig (m : Machine) (user workspace : Option Path)
    (f : Config.Layer → Output × Machine) : Output × Machine :=
  match loadConfig m user workspace with
  | .ok config => f config
  | .error failure => (failure.output, m)

/-- Carry a subcommand out; the language server answers elsewhere, so that here it is over at
once. -/
def runCommand (m : Machine) (i : Invocation) : Output × Machine :=
  match i.command with
  | .check files workspace format =>
    withConfig m i.config workspace fun config => runCheck m config files workspace format
  | .serve => ({}, m)
  | .new workspace => runNew m workspace
  | .deploy file => withConfig m i.config none fun config => runDeploy m config file
  | .undeploy file => withConfig m i.config none fun config => runUndeploy m config file
  | .package file => runPackage m file

def withLog (m : Machine) : Machine :=
  { m with disk := openLog m.disk (logFiles m.home) }

/-- What is printed instead of running a subcommand. -/
def detourOutput : Detour → Output
  | .usage => { stderr := usageText, status := 2 }
  | .help verb => { stdout := helpText verb }
  | .version => { stdout := versionText }

/-- Run the program on its arguments. -/
def run (m : Machine) (args : List String) : Output × Machine :=
  match parseArguments args with
  | .error detour => (detourOutput detour, m)
  | .ok i => runCommand (withLog m) i

end ModBench.Cli
