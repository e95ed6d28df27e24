import ModBench.Cli.Arguments
import ModBench.Diagnostic.Record
import ModBench.Lint.Published

/-!
One-shot checks.  Every eligible file is linted on its own, or the workspace once; what a later run
reports about a file takes the place of what an earlier one reported.
-/

set_option autoImplicit false
set_option relaxedAutoImplicit false

namespace ModBench.Cli

structure CheckOutcome where
  snapshot : Snapshot
  /-- The files whose compiler run failed, each with the text that says why. -/
  failures : List (Path × String) := []
  deriving DecidableEq, Repr, Inhabited

/-- Whether some run of the compiler failed. -/
def CheckOutcome.failed (o : CheckOutcome) : Bool :=
  !o.failures.isEmpty

/-- A path from the root, given the current directory. -/
def absolute (cwd p : Path) : Path :=
  if p.isAbsolute then p else cwd.join p

/-- The eligible files among those that were named; the first of them stands for a workspace. -/
def documents (s : LintSettings) (cwd : Path) (files : List Path) (workspace : Option Path) :
    List Path :=
  let eligible := (files.map (absolute cwd)).filter s.isEligible
  if workspace.isSome then eligible.take 1 else eligible

/-- The records of a run by file; a file's name is joined to the base directory as it is. -/
def groupByFile (records : List Record) (base : Path) : RecordMap :=
  records.foldl
    (fun grouped r => grouped.upsert (base.join (Path.ofString r.file)) fun old =>
      old.getD [] ++ [r])
    []

/-- What is known in the middle of a check: the records by file, and the failures so far. -/
structure Collected where
  records : RecordMap := []
  failures : List (Path × String) := []
  deriving DecidableEq, Repr, Inhabited

/-- Lint documents one after the other; the first setting that is missing ends the check. -/
def collectEach {σ : Type} (run : CommandLine → σ → Except ProcessError ProcessOutput × σ)
    (s : LintSettings) (root : Option Path) (c : Collected) (state : σ) :
    List Path → Except (MissingSetting × Collected) Collected × σ
  | [] => (.ok c, state)
  | document :: rest =>
    match lintDocument run s document root state with
    | (.ok outcome, state) =>
      let found := groupByFile outcome.records outcome.baseDir
      collectEach run s root { c with records := c.records.insertAll found } state rest
    | (.error (.configuration missing), state) => (.error (missing, c), state)
    | (.error (.process error), state) =>
      collectEach run s root { c with failures := c.failures ++ [(document, error.message)] } state
        rest

def Collected.outcome (c : Collected) : CheckOutcome :=
  ⟨Snapshot.ofFiles c.records, c.failures⟩

/-- Run the compiler on the named files and put its reports together. -/
def collect {σ : Type} (run : CommandLine → σ → Except ProcessError ProcessOutput × σ)
    (s : LintSettings) (cwd : Path) (files : List Path) (workspace : Option Path) (state : σ) :
    Except (MissingSetting × Collected) CheckOutcome × σ :=
  let root := workspace.map (absolute cwd)
  let (result, state) := collectEach run s root {} state (documents s cwd files root)
  (result.map Collected.outcome, state)

/-- Whether a check was passed: no run failed and no record is an error. -/
def CheckOutcome.passed (o : CheckOutcome) : Bool :=
  !o.failed && o.snapshot.count .error == 0

/-- How many records of each severity there are. -/
def summary (s : Snapshot) : String :=
  toString (s.count .error) ++ " error(s), " ++ toString (s.count .warning) ++ " warning(s), " ++
    toString (s.count .info) ++ " info"

/-- A record as a check prints it, under the path of its file: the message's first line stands
behind the position, and every other line is indented on a line of its own. -/
def formatText (p : Path) (r : Record) : String :=
  let lines := Text.linesOf r.message
  lines.tail.foldl (fun out line => out ++ "\n    " ++ line)
    (p.toString ++ ":" ++ toString r.line.toNat ++ ":" ++ toString r.column.toNat ++ ": " ++
      r.severity.label ++ ": " ++ lines.headD "")

def fileText (f : FileRecords) : String :=
  String.join (f.2.map fun r => formatText f.1 r ++ "\n")

/-- The records of all files and, if there are any, the summary behind an empty line. -/
def textReport (s : Snapshot) : String :=
  String.join (s.files.map fileText) ++ if 0 < s.total then "\n" ++ summary s ++ "\n" else ""

/-- A file as an object; none if its path is not text. -/
def fileReport? (f : FileRecords) : Option Json :=
  f.1.text?.map fun path =>
    .object [("path", .string path), ("diagnostics", .array (f.2.map Record.toJson))]

def jsonReport? (s : Snapshot) : Option String :=
  (s.files.mapM fileReport?).map fun files => (Json.array files).pretty ++ "\n"

/-- What a check prints; none if it cannot be written in the format. -/
def report? (format : OutputFormat) (s : Snapshot) : Option String :=
  match format with
  | .text => some (textReport s)
  | .json => jsonReport? s

/-- What is said of a file whose run failed. -/
def failureLine (failure : Path × String) : String :=
  failure.1.toString ++ ": " ++ failure.2 ++ "\n"

end ModBench.Cli
