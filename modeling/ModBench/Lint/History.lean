import ModBench.Lint.Manager

/-!
Histories of a manager.  A history is any list of acts: what a host asks for, and what the tasks of
the pipelines do by themselves, one act at a time and in any order.  Nothing is said about when a
task goes on, how long a run takes or how it ends.  An act that is not possible changes nothing.
Every act consists of moves, and the logs of a history are kept move by move.
-/

set_option autoImplicit false
set_option relaxedAutoImplicit false

namespace ModBench

/-- An act of the host or of a pipeline's task. -/
inductive Act where
  | visible (document : Path)
  | close (document : Path)
  | setRoots (roots : List Path)
  /-- New settings; tracked documents start over in the order of the rank. -/
  | reconfigure (settings : LintSettings) (rank : PathMap.Rank)
  | poll (budget : Nat)
  | takeChanges
  | shutdown
  /-- A pipeline takes in a trigger; a debounce window that it opens begins now. -/
  | receive (pipeline : Nat) (now : Nat)
  /-- A debounce window runs out and a lint run begins. -/
  | begin (pipeline : Nat) (run : Run) (now : Nat)
  /-- A lint run ends, with a result or with a crash. -/
  | finish (pipeline : Nat)
  /-- A result that waited for room enters the queue. -/
  | enter (pipeline : Nat)

/-- A single step of an act. -/
inductive Move where
  | request (document : Path)
  | untrack (document : Path)
  | clear (document : Path)
  | setSettings (settings : LintSettings)
  | setRoots (roots : List Path)
  | next
  | takeChanges
  | shutdown
  | receive (pipeline : Nat) (now : Nat)
  | begin (pipeline : Nat) (run : Run) (now : Nat)
  | finish (pipeline : Nat)
  | enter (pipeline : Nat)

namespace Manager

def act (m : Manager) : Act → Manager
  | .visible document => (m.submit document).2
  | .close document => m.close document
  | .setRoots roots => m.setRoots roots
  | .reconfigure settings rank => m.renew settings rank
  | .poll budget => (m.poll budget).2
  | .takeChanges => m.takeChanges.2
  | .shutdown => m.shutdown
  | .receive id now => m.receive id now
  | .begin id run now => m.begin id run now
  | .finish id => m.finish id
  | .enter id => m.enter id

def after (m : Manager) (history : List Act) : Manager :=
  history.foldl act m

def move (m : Manager) : Move → Manager
  | .request document => m.request document
  | .untrack document => m.untrack document
  | .clear document => { m with published := m.published.clear document }
  | .setSettings settings => { m with settings := settings }
  | .setRoots roots => m.setRoots roots
  | .next => m.next
  | .takeChanges => m.takeChanges.2
  | .shutdown => m.shutdown
  | .receive id now => m.receive id now
  | .begin id run now => m.begin id run now
  | .finish id => m.finish id
  | .enter id => m.enter id

def restartMoves (settings : LintSettings) (document : Path) : List Move :=
  [.untrack document, if settings.isEligible document then .request document else .clear document]

def moves (m : Manager) : Act → List Move
  | .visible document => if m.settings.isEligible document then [.request document] else []
  | .close document => [.untrack document, .clear document]
  | .setRoots roots => [.setRoots roots]
  | .reconfigure settings rank =>
    .setSettings settings :: (m.tracked.keysBy rank).flatMap (restartMoves settings)
  | .poll budget => List.replicate budget .next
  | .takeChanges => [.takeChanges]
  | .shutdown => [.shutdown]
  | .receive id now => [.receive id now]
  | .begin id run now => [.begin id run now]
  | .finish id => [.finish id]
  | .enter id => [.enter id]

def movesOf (m : Manager) : List Act → List Move
  | [] => []
  | a :: history => m.moves a ++ (m.act a).movesOf history

def log {α : Type} (entries : Manager → Move → List α) (m : Manager) : List Move → List α
  | [] => []
  | v :: rest => entries m v ++ log entries (m.move v) rest

def triggerIn (m : Manager) : Move → List (Path × Trigger)
  | .request document => [(document, m.nextTrigger document)]
  | _ => []

/-- The lint run begun in a move. -/
def attemptIn (m : Manager) : Move → List Attempt
  | .begin id _ now =>
    match m.pipeline? id with
    | none => []
    | some p =>
      match p.phase with
      | .debouncing trigger _ => [p.attempt trigger now]
      | _ => []
  | _ => []

def handledIn (m : Manager) : Move → List (Manager × Event)
  | .next =>
    match m.queue with
    | [] => []
    | e :: rest => [({ m with queue := rest }, e)]
  | _ => []

def appliedIn (m : Manager) (v : Move) : List Event :=
  ((m.handledIn v).filter fun (m, e) => m.accepts e).map Prod.snd

def triggersFor (p : Path) (m : Manager) (v : Move) : List Trigger :=
  ((m.triggerIn v).filter fun (document, _) => p.same document).map Prod.snd

def appliedFor (p : Path) (m : Manager) (v : Move) : List Event :=
  (m.appliedIn v).filter fun e => p.same e.document

/-- The triggers of a document in a history, oldest first. -/
def triggers (m : Manager) (p : Path) (history : List Act) : List Trigger :=
  m.log (triggersFor p) (m.movesOf history)

/-- The lint runs begun in a history, oldest first. -/
def attempts (m : Manager) (history : List Act) : List Attempt :=
  m.log attemptIn (m.movesOf history)

def handled (m : Manager) (history : List Act) : List (Manager × Event) :=
  m.log handledIn (m.movesOf history)

/-- The events of a document whose results are applied in a history, oldest first. -/
def applied (m : Manager) (p : Path) (history : List Act) : List Event :=
  m.log (appliedFor p) (m.movesOf history)

/-- The documents of the accepted openings and savings in a history. -/
def seen (m : Manager) : List Act → List Path
  | [] => []
  | .visible document :: history =>
    if m.settings.isEligible document then document :: (m.act (.visible document)).seen history
    else (m.act (.visible document)).seen history
  | a :: history => (m.act a).seen history

end Manager

end ModBench
