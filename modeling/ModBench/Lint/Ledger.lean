import ModBench.Lint.History

/-!
The ledger of a history: the lint runs that were begun and what became of each, and the results that
were sent and the places that they went through.
-/

set_option autoImplicit false
set_option relaxedAutoImplicit false

namespace ModBench

/-- A lint run that was begun, with its pipeline and its number among the runs of that pipeline. -/
structure Flight where
  pipeline : Nat
  generation : Nat
  document : Path
  settings : LintSettings
  trigger : Trigger
  deriving DecidableEq, Repr

namespace Flight

/-- What tells lint runs apart. -/
def key (f : Flight) : Nat × Nat :=
  (f.pipeline, f.generation)

/-- The compiler's command line; without one the compiler is not called. -/
def command (f : Flight) : Except MissingSetting CommandLine :=
  f.settings.commandFor f.document f.trigger.root

/-- The event that carries a result of the run. -/
def event (f : Flight) (result : LintResult) : Event :=
  ⟨f.document, f.pipeline, f.generation, f.trigger, result⟩

end Flight

def Event.key (e : Event) : Nat × Nat :=
  (e.pipeline, e.generation)

namespace Pipeline

/-- The pipeline's present run, if it is made for a trigger. -/
def flight (p : Pipeline) (trigger : Trigger) : Flight :=
  ⟨p.id, p.generation, p.document, p.settings, trigger⟩

/-- The run that is under way. -/
def flight? (p : Pipeline) : Option Flight :=
  match p.phase with
  | .running trigger _ _ => some (p.flight trigger)
  | _ => none

end Pipeline

namespace Manager

/-- The lint runs that are under way in the registered pipelines. -/
def flights (m : Manager) : List Flight :=
  m.pipelines.filterMap Pipeline.flight?

/-! ### What became of lint runs -/

def begunIn (m : Manager) : Move → List Flight
  | .begin id _ _ =>
    match m.pipeline? id with
    | none => []
    | some p =>
      match p.phase with
      | .debouncing trigger _ => [{ p with generation := p.generation + 1 }.flight trigger]
      | _ => []
  | _ => []

/-- The lint run that ends in a move with a result. -/
def completedIn (m : Manager) : Move → List (Flight × LintResult)
  | .finish id =>
    match m.pipeline? id with
    | none => []
    | some p =>
      match p.phase with
      | .running trigger (.result result) _ => [(p.flight trigger, result)]
      | _ => []
  | _ => []

def crashedIn (m : Manager) : Move → List Flight
  | .finish id =>
    match m.pipeline? id with
    | none => []
    | some p =>
      match p.phase with
      | .running trigger .crash _ => [p.flight trigger]
      | _ => []
  | _ => []

/-- The lint runs that are given up in a move: for a newer trigger, or with their pipeline. -/
def cancelledIn (m : Manager) : Move → List Flight
  | .receive id _ =>
    match m.pipeline? id with
    | none => []
    | some p => if p.inbox.isEmpty then [] else p.flight?.toList
  | .untrack document =>
    match m.tracked.find? document with
    | none => []
    | some t => t.pipeline.flight?.toList
  | .shutdown => m.flights
  | _ => []

/-- The pipelines that are stopped in a move, by their numbers. -/
def closedIn (m : Manager) : Move → List Nat
  | .untrack document => (m.tracked.find? document).toList.map fun t => t.pipeline.id
  | .shutdown => m.pipelines.map Pipeline.id
  | _ => []

/-- The pipelines that are made in a move. -/
def spawnedIn (m : Manager) : Move → List Pipeline
  | .request document =>
    let newcomer := (m.newcomer document (m.nextTrigger document)).pipeline
    match m.tracked.find? document with
    | none => [newcomer]
    | some t => if t.pipeline.isAlive then [] else [newcomer]
  | _ => []

/-! ### Where results go -/

/-- The results that pipelines have to send. -/
def sentIn (m : Manager) (v : Move) : List Event :=
  (m.completedIn v).map fun c => c.1.event c.2

/-- The results that enter the queue, behind all that are in it. -/
def enteredIn (m : Manager) (v : Move) : List Event :=
  (m.move v).queue.drop m.queue.length

/-- The results that a shutdown takes out of the queue. -/
def drainedIn (m : Manager) : Move → List Event
  | .shutdown => m.queue
  | _ => []

/-- The results that leave the queue. -/
def takenIn (m : Manager) (v : Move) : List Event :=
  (m.handledIn v).map Prod.snd ++ m.drainedIn v

/-- The results that are lost with their pipelines while they wait for room. -/
def droppedIn (m : Manager) : Move → List Event
  | .untrack document =>
    match m.tracked.find? document with
    | none => []
    | some t => m.waiting.filter fun e => e.pipeline == t.pipeline.id
  | .shutdown => m.waiting
  | _ => []

/-! ### Over a history -/

def begun (m : Manager) (history : List Act) : List Flight :=
  m.log begunIn (m.movesOf history)

def completed (m : Manager) (history : List Act) : List (Flight × LintResult) :=
  m.log completedIn (m.movesOf history)

def crashed (m : Manager) (history : List Act) : List Flight :=
  m.log crashedIn (m.movesOf history)

def cancelled (m : Manager) (history : List Act) : List Flight :=
  m.log cancelledIn (m.movesOf history)

/-- The lint runs that were begun and neither ended nor were given up. -/
def live (m : Manager) (history : List Act) : List Flight :=
  (m.begun history).filter fun f =>
    f ∉ (m.completed history).map Prod.fst ++ m.crashed history ++ m.cancelled history

def closed (m : Manager) (history : List Act) : List Nat :=
  m.log closedIn (m.movesOf history)

def spawned (m : Manager) (history : List Act) : List Pipeline :=
  m.log spawnedIn (m.movesOf history)

def sent (m : Manager) (history : List Act) : List Event :=
  m.log sentIn (m.movesOf history)

def entered (m : Manager) (history : List Act) : List Event :=
  m.log enteredIn (m.movesOf history)

def drained (m : Manager) (history : List Act) : List Event :=
  m.log drainedIn (m.movesOf history)

def taken (m : Manager) (history : List Act) : List Event :=
  m.log takenIn (m.movesOf history)

def dropped (m : Manager) (history : List Act) : List Event :=
  m.log droppedIn (m.movesOf history)

end Manager

end ModBench
