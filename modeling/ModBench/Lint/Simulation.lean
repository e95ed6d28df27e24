import ModBench.Lint.Manager

/-!
The linter on a virtual clock.  Time moves only in `sleep`, and pipelines go on only then: results
that wait for room come first, then all that falls due, in the order of time.  Of what falls due at
one time, that which was asked for first comes first; a scheduler with several threads need not keep
to this.  How long a run takes and how it ends is given by a runner with a state of its own.
-/

set_option autoImplicit false
set_option relaxedAutoImplicit false

namespace ModBench

abbrev Runner (σ : Type) := CommandLine → σ → Run × σ

/-- A command with the time at which it was started. -/
structure Call where
  command : CommandLine
  time : Nat
  deriving DecidableEq, Repr, Inhabited

/-- What a host does with a linter, or lets happen by waiting. -/
inductive Operation where
  | visible (document : Path)
  | close (document : Path)
  | setRoots (roots : List Path)
  /-- New settings; tracked documents start over in the order of the rank. -/
  | reconfigure (settings : LintSettings) (rank : PathMap.Rank)
  | poll (budget : Nat)
  | takeChanges
  | shutdown
  | sleep (length : Nat)

/-- A manager with its clock, the state of its runner, and what was begun so far: the attempts to
lint and the commands started for them. -/
structure Simulation (σ : Type) where
  manager : Manager
  runner : σ
  now : Nat := 0
  attempts : List Attempt := []
  calls : List Call := []

namespace Simulation

variable {σ : Type}

/-- Replace the manager by what an operation at the present time makes of it. -/
def modify (s : Simulation σ) (f : Manager → Nat → Manager) : Simulation σ :=
  { s with manager := f s.manager s.now }

/-- Begin the lint run of a pipeline whose debounce window ran out. -/
def start (run : Runner σ) (s : Simulation σ) (p : Pipeline) (trigger : Trigger) : Simulation σ :=
  let s := { s with attempts := s.attempts ++ [p.attempt trigger s.now] }
  match p.commandFor trigger with
  | .error _ => { s with manager := s.manager.begin p.id default s.now }
  | .ok command =>
    let (course, runner) := run command s.runner
    { s with
      manager := s.manager.begin p.id course s.now,
      runner := runner,
      calls := s.calls ++ [⟨command, s.now⟩] }

/-- Let a pipeline go on whose time has come. -/
def fire (run : Runner σ) (s : Simulation σ) (p : Pipeline) : Simulation σ :=
  match p.phase with
  | .debouncing trigger _ => s.start run p trigger
  | _ => { s with manager := s.manager.finish p.id }

/-- Let the pipelines go on that fall due up to a time, at most `steps` times. -/
def runUntil (run : Runner σ) (target : Nat) : Nat → Simulation σ → Simulation σ
  | 0, s => s
  | steps + 1, s =>
    match s.manager.nextDue? with
    | none => s
    | some (due, p) =>
      if due ≤ target then
        runUntil run target steps (fire run { s with now := max s.now due } p)
      else s

/-- Every pipeline goes on at most twice without a new trigger: into its run and out of it. -/
def stepBound (s : Simulation σ) : Nat :=
  2 * s.manager.tracked.length

/-- Let time pass up to a moment. -/
def sleepUntil (run : Runner σ) (s : Simulation σ) (target : Nat) : Simulation σ :=
  let s := s.modify fun m now => m.refill now
  let s := s.runUntil run target s.stepBound
  { s with now := max s.now target }

/-- Let time pass. -/
def sleep (run : Runner σ) (s : Simulation σ) (length : Nat) : Simulation σ :=
  s.sleepUntil run (s.now + length)

def perform (run : Runner σ) (s : Simulation σ) : Operation → Simulation σ
  | .visible document => s.modify fun m now => (m.visible now document).2
  | .close document => s.modify fun m _ => m.close document
  | .setRoots roots => s.modify fun m _ => m.setRoots roots
  | .reconfigure settings rank => s.modify fun m now => m.reconfigure now settings rank
  | .poll budget => s.modify fun m _ => (m.poll budget).2
  | .takeChanges => s.modify fun m _ => m.takeChanges.2
  | .shutdown => s.modify fun m _ => m.shutdown
  | .sleep length => s.sleep run length

/-- Carry out operations, one after the other. -/
def performAll (run : Runner σ) (s : Simulation σ) (operations : List Operation) : Simulation σ :=
  operations.foldl (perform run) s

/-- The commands started so far, and the simulation with nothing begun. -/
def takeCalls (s : Simulation σ) : List Call × Simulation σ :=
  (s.calls, { s with attempts := [], calls := [] })

end Simulation

end ModBench
