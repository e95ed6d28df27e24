import ModBench.Lint.Process
import ModBench.Lint.Setting
import ModBench.Report.Header

/-!
Settings of lint runs and the command line they give.
-/

set_option autoImplicit false
set_option relaxedAutoImplicit false

namespace ModBench

/-- The stream on which a grammar's reports are printed. -/
def Grammar.defaultStream : Grammar → OutputStream
  | .tagged => .stderr
  | .legacy => .stdout

/-- The options of lint runs that always have a value. -/
structure LintOptions where
  /-- Length of the debounce window in milliseconds. -/
  debounce : Nat := 200
  grammar : Grammar := .tagged
  /-- The stream to read instead of the grammar's own. -/
  stream : Option OutputStream := none
  /-- Extension of the documents that are linted. -/
  sourceExtension : String := "reds"
  deriving DecidableEq, Repr, Inhabited

/-- All that a lint run needs; the paths may be absent and are asked for with each run. -/
structure LintSettings where
  compiler : Option Path := none
  /-- The compiled script blob. -/
  blob : Option Path := none
  options : LintOptions := {}
  deriving DecidableEq, Repr, Inhabited

namespace LintSettings

/-- The stream that reports are read from. -/
def stream (s : LintSettings) : OutputStream :=
  s.options.stream.getD s.options.grammar.defaultStream

def isEligible (s : LintSettings) (document : Path) : Bool :=
  document.hasExtension s.options.sourceExtension

def lintCommand (s : LintSettings) (source : Path) (root : Option Path) :
    Except MissingSetting CommandLine :=
  match s.compiler, s.blob with
  | none, _ => .error .compilerPath
  | some _, none => .error .scriptCachePath
  | some compiler, some blob =>
    .ok ⟨compiler, [.ofString "lint", .ofString "-s", source, .ofString "-b", blob], root⟩

end LintSettings

end ModBench
