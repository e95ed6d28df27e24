import ModBench.Cli.Program
import ModBench.Proofs.Diagnostic.Snapshot
import ModBench.Proofs.Cli.Grouping
import ModBench.Proofs.Lint.Feed

/-!
One-shot checks of many files.  A check runs the compiler once for each eligible file, or once for a
workspace.  Each file is shown with what the last run that names it and succeeded has reported, and
the exit status says whether every run succeeded, no error was found and all could be printed.
-/

set_option autoImplicit false
set_option relaxedAutoImplicit false

namespace ModBench

open PathMap (Sorted)

/-! ### Snapshots -/

/-- The snapshot of a map of records shows for each path what the map holds. -/
private theorem Tidy.get?_ofFiles {m : RecordMap} (tidy : Tidy m) (p : Path) :
    (Snapshot.ofFiles m).get? p = m.find? p := by
  ext records
  rw [Snapshot.get?_ofFiles tidy.sorted.apart]
  constructor
  · rintro ⟨_, file, mem, same, rfl⟩
    exact PathMap.find?_of_mem tidy.sorted mem (Path.same_symm same)
  · intro found
    obtain ⟨q, same, mem⟩ := PathMap.exists_mem_of_find? found
    exact ⟨tidy.ne_nil_of_mem mem, (q, records), mem, Path.same_symm same, rfl⟩

namespace Cli

/-! ### Runs -/

abbrev Answer := Except ProcessError ProcessOutput

/-- What a compiler answers to commands given one after the other, and the state it is left in. -/
def answers {σ : Type} (run : CommandLine → σ → Answer × σ) :
    List CommandLine → σ → List Answer × σ
  | [], state => ([], state)
  | command :: rest, state =>
    let (answer, state) := run command state
    let (later, state) := answers run rest state
    (answer :: later, state)

/-- The entries of a list of files that are to be linted. -/
def eligible (s : LintSettings) (cwd : Path) (files : List Path) : List Path :=
  (files.map (absolute cwd)).filter s.isEligible

def commandFor (compiler blob source : Path) (cwd : Option Path) : CommandLine :=
  ⟨compiler, [.ofString "lint", .ofString "-s", source, .ofString "-b", blob], cwd⟩

/-- The commands of a check: one for the workspace if anything is eligible, and without a workspace
one for each eligible file. -/
def commands (compiler blob : Path) (root : Option Path) (eligible : List Path) :
    List CommandLine :=
  match root with
  | some root => if eligible = [] then [] else [commandFor compiler blob root (some root)]
  | none => eligible.map fun document => commandFor compiler blob document none

section Runs

variable {σ : Type} {run : CommandLine → σ → Answer × σ} {s : LintSettings}
  {compiler blob : Path}

end Runs

/-! ### Merging -/

end Cli

end ModBench
