import ModBench.Lint.Run

/-!
Pipelines: one per tracked document.  Triggers wait in the pipeline's inbox until it takes them in.
A trigger taken in opens a debounce window, or opens it anew; when the window runs out a lint run
starts; a trigger taken in during that run gives the run up and opens a window again.  A finished
result that finds no room in the event queue blocks its pipeline, which then takes nothing in.
-/

set_option autoImplicit false
set_option relaxedAutoImplicit false

namespace ModBench

/-- What a lint request captures: the workspace root of the document at that moment. -/
structure Trigger where
  root : Option Path
  /-- The number of the request among all that the manager got. -/
  number : Nat
  deriving DecidableEq, Repr, Inhabited

/-- How the compiler's run goes: how long it takes, and what it leaves, or that it crashes. -/
structure Run where
  delay : Nat := 0
  /-- The end of the run; none for a crash. -/
  ending : Option (Except ProcessError ProcessOutput)
  deriving Inhabited

/-- How an attempt to lint ends: with a result, or by taking its pipeline down. -/
inductive Finish where
  | result (result : LintResult)
  | crash
  deriving Inhabited

/-- What a pipeline is doing. -/
inductive Phase where
  /-- Waiting for a trigger. -/
  | idle
  | debouncing (trigger : Trigger) (due : Nat)
  /-- Linting on behalf of a trigger, which will have finished so at `ends`. -/
  | running (trigger : Trigger) (finish : Finish) (ends : Nat)
  /-- Waiting for room for its result. -/
  | blocked
  /-- Taken down by a crash. -/
  | ended
  deriving Inhabited

/-- A document's pipeline; its settings are those it was made with. -/
structure Pipeline where
  id : Nat
  document : Path
  settings : LintSettings
  /-- The number of lint runs begun. -/
  generation : Nat := 0
  phase : Phase := .idle
  /-- Triggers not taken in yet, oldest first. -/
  inbox : List Trigger := []
  deriving Inhabited

/-- The result of a lint run with its origin. -/
structure Event where
  document : Path
  pipeline : Nat
  generation : Nat
  /-- The trigger that the run was made for. -/
  trigger : Trigger
  result : LintResult

/-- A lint run that was begun: what was to be linted, how, and when. -/
structure Attempt where
  document : Path
  settings : LintSettings
  root : Option Path
  time : Nat
  deriving DecidableEq, Repr, Inhabited

namespace Pipeline

/-- Whether the pipeline still takes triggers. -/
def isAlive (p : Pipeline) : Bool :=
  match p.phase with
  | .ended => false
  | _ => true

def openWindow (p : Pipeline) (now : Nat) (trigger : Trigger) : Pipeline :=
  { p with phase := .debouncing trigger (now + p.settings.options.debounce) }

def post (p : Pipeline) (trigger : Trigger) : Pipeline :=
  { p with inbox := p.inbox ++ [trigger] }

/-- Take in the oldest trigger of the inbox, unless the pipeline is blocked or was taken down. -/
def receive (p : Pipeline) (now : Nat) : Pipeline :=
  match p.phase, p.inbox with
  | .blocked, _ => p
  | .ended, _ => p
  | _, [] => p
  | _, trigger :: rest => { p.openWindow now trigger with inbox := rest }

/-- Take in all triggers of the inbox, so that the newest counts. -/
def receiveAll (p : Pipeline) (now : Nat) : Pipeline :=
  p.inbox.foldl (fun p _ => p.receive now) p

/-- The time at which the pipeline goes on by itself. -/
def due? (p : Pipeline) : Option Nat :=
  match p.phase with
  | .debouncing _ due => some due
  | .running _ _ ends => some ends
  | _ => none

/-- The number of the request that the pipeline is at work on. -/
def turn (p : Pipeline) : Nat :=
  match p.phase with
  | .debouncing trigger _ => trigger.number
  | .running trigger _ _ => trigger.number
  | _ => 0

def commandFor (p : Pipeline) (trigger : Trigger) : Except MissingSetting CommandLine :=
  p.settings.commandFor p.document trigger.root

/-- The lint run that begins for a trigger at a time. -/
def attempt (p : Pipeline) (trigger : Trigger) (now : Nat) : Attempt :=
  ⟨p.document, p.settings, trigger.root, now⟩

/-- How an attempt ends and how long it takes if the compiler's run goes so.  Without a command
there is no such run. -/
def courseFor (p : Pipeline) (trigger : Trigger) (run : Run) : Finish × Nat :=
  match p.commandFor trigger with
  | .error missing => (.result (.error (.configuration missing)), 0)
  | .ok _ =>
    match run.ending with
    | none => (.crash, run.delay)
    | some ended => (.result (p.settings.resultOf p.document trigger.root ended), run.delay)

/-- Close the debounce window and begin the lint run; the compiler's run would go as given. -/
def begin (p : Pipeline) (run : Run) (now : Nat) : Pipeline :=
  match p.phase with
  | .debouncing trigger _ =>
    let (finish, length) := p.courseFor trigger run
    { p with generation := p.generation + 1, phase := .running trigger finish (now + length) }
  | _ => p

def resume (p : Pipeline) : Pipeline :=
  match p.phase with
  | .blocked => { p with phase := .idle }
  | _ => p

/-- The event that carries a result of the pipeline's present run. -/
def event (p : Pipeline) (trigger : Trigger) (result : LintResult) : Event :=
  ⟨p.document, p.id, p.generation, trigger, result⟩

end Pipeline

end ModBench
