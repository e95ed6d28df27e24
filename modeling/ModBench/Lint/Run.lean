import ModBench.Lint.Settings
import ModBench.Report

/-!
One lint run of a document.  The compiler is given the workspace root when the document lives in
one, and the document itself otherwise; relative file names in its report are below that root, or
below the document's directory.
-/

set_option autoImplicit false
set_option relaxedAutoImplicit false

namespace ModBench

/-- What a successful lint run found. -/
structure LintOutcome where
  records : List Record
  /-- The directory below which relative file names of the records lie. -/
  baseDir : Path
  deriving DecidableEq, Repr, Inhabited

/-- Why a lint run found nothing out. -/
inductive LintError where
  /-- A setting is absent; nothing was run. -/
  | configuration (missing : MissingSetting)
  /-- The compiler failed. -/
  | process (error : ProcessError)
  deriving DecidableEq, Repr, Inhabited

/-- The text shown to the user. -/
def LintError.message : LintError → String
  | configuration missing => missing.message
  | process error => error.message

abbrev LintResult := Except LintError LintOutcome

namespace LintSettings

def commandFor (s : LintSettings) (document : Path) (root : Option Path) :
    Except MissingSetting CommandLine :=
  s.lintCommand (root.getD document) root

/-- The directory for relative file names in a report on a document. -/
def baseDirFor (document : Path) (root : Option Path) : Path :=
  match root with
  | some root => root
  | none => document.parent?.getD .empty

/-- What the end of the compiler's run means for a document. -/
def resultOf (s : LintSettings) (document : Path) (root : Option Path) :
    Except ProcessError ProcessOutput → LintResult
  | .error error => .error (.process error)
  | .ok output => .ok ⟨Report.parse s.options.grammar (output.stream s.stream),
      baseDirFor document root⟩

end LintSettings

def lintDocument {σ : Type} (run : CommandLine → σ → Except ProcessError ProcessOutput × σ)
    (s : LintSettings) (document : Path) (root : Option Path) (state : σ) : LintResult × σ :=
  match s.commandFor document root with
  | .error missing => (.error (.configuration missing), state)
  | .ok command =>
    let (ended, state) := run command state
    (s.resultOf document root ended, state)

/-- The path a record belongs to: its file itself when absolute, else below the base directory. -/
def resolveFile (base : Path) (r : Record) : Path :=
  let file := Path.ofString r.file
  if file.isAbsolute then file else base.join file

end ModBench
