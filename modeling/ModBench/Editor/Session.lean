import ModBench.Editor.Message
import ModBench.Lint.Simulation

/-!
The session of an editor.  A ticker applies the results of lint runs at fixed times and takes what
changed; a handler may take what changed as well.  Taking the changes and sending each of them are
steps of their own, so that two tasks may hold changes at the same time.
-/

set_option autoImplicit false
set_option relaxedAutoImplicit false

namespace ModBench.Editor

/-- How far the conversation with the editor has come. -/
inductive Stage where
  /-- Nothing was agreed on yet. -/
  | fresh
  | ready
  /-- The editor asked the server to shut down. -/
  | closing
  /-- The editor is gone. -/
  | over
  deriving DecidableEq, Repr, Inhabited

/-- Whether diagnostics are sent at a stage. -/
def Stage.publishes : Stage → Bool
  | .ready => true
  | .closing => true
  | _ => false

/-- The task that applies results at fixed times. -/
structure Ticker where
  /-- The time of the next tick. -/
  due : Nat
  /-- Changes taken in the last tick and not sent yet. -/
  unsent : List FileRecords := []
  deriving DecidableEq, Repr, Inhabited

/-- The time between two ticks, in milliseconds. -/
def tickLength : Nat := 25

/-- How many results are applied in a tick at most. -/
def tickBudget : Nat := 64

structure Session (σ : Type) where
  stage : Stage := .fresh
  linter : Simulation σ
  ticker : Option Ticker := none
  /-- Changes taken by handlers and not sent yet, the oldest handler first. -/
  parcels : List (List FileRecords) := []
  /-- The messages sent so far, the oldest first. -/
  outbox : List Message := []

namespace Session

variable {σ : Type}

/-- A session before anything was agreed on. -/
def new (runner : σ) : Session σ :=
  { linter := { manager := Manager.new {}, runner := runner } }

def manager (s : Session σ) : Manager := s.linter.manager

/-- The session with another state of the linter. -/
def withManager (s : Session σ) (m : Manager) : Session σ :=
  { s with linter := { s.linter with manager := m } }

/-- Send a message, unless the editor is gone. -/
def send (s : Session σ) (m : Message) : Session σ :=
  if s.stage = .over then s else { s with outbox := s.outbox ++ [m] }

def sendFile (s : Session σ) (f : FileRecords) : Session σ :=
  match Message.ofFile? f with
  | some m => if s.stage.publishes then s.send m else s
  | none => s

/-- Send the notices that the linter gave. -/
def announce (s : Session σ) : Session σ :=
  let (notices, m) := s.manager.takeNotices
  (notices.flatMap Message.ofNotice).foldl send (s.withManager m)

/-- Apply results and take what changed, if the ticker holds nothing any more. -/
def tick (s : Session σ) : Session σ :=
  match s.ticker with
  | some ⟨_, []⟩ =>
    let (_, m) := s.manager.poll tickBudget
    let (changes, m) := m.takeChanges
    { s.withManager m with ticker := some ⟨s.linter.now + tickLength, changes⟩ }
  | _ => s

/-- Let the ticker send one of the changes that it holds. -/
def sendFromTicker (s : Session σ) : Session σ :=
  match s.ticker with
  | some ⟨due, f :: rest⟩ => { s with ticker := some ⟨due, rest⟩ }.sendFile f
  | _ => s

/-- Let a handler take what changed. -/
def takeParcel (s : Session σ) : Session σ :=
  let (changes, m) := s.manager.takeChanges
  { s.withManager m with parcels := s.parcels ++ [changes] }

/-- Let a handler send one of the changes that it holds; a handler that holds nothing is done. -/
def sendFromParcel (s : Session σ) (index : Nat) : Session σ :=
  match s.parcels[index]? with
  | some (f :: rest) => { s with parcels := s.parcels.set index rest }.sendFile f
  | some [] => { s with parcels := s.parcels.eraseIdx index }
  | none => s

/-- The changes that the ticker took and has not sent. -/
def tickerHeld (s : Session σ) : List FileRecords :=
  (s.ticker.map Ticker.unsent).getD []

/-- Send all that the handlers hold, the oldest handler first. -/
def sendParcels (s : Session σ) : Session σ :=
  s.parcels.flatten.foldl sendFile { s with parcels := [] }

def startTicker (s : Session σ) : Session σ :=
  { s with ticker := some ⟨s.linter.now, []⟩ }

/-- A document was opened or saved. -/
def see (s : Session σ) (document : Path) : Session σ :=
  s.withManager (s.manager.visible s.linter.now document).2

def close (s : Session σ) (document : Path) : Session σ :=
  (s.withManager (s.manager.close document)).takeParcel

/-- Stop the ticker and the linter, and take what that changed. -/
def shutdown (s : Session σ) : Session σ :=
  ({ s with ticker := none }.withManager s.manager.shutdown).takeParcel

/-- Work with new workspace roots and with the settings for them, or tell why there are none. -/
def configure (s : Session σ) (roots : List Path) (loaded : Except String LintSettings) :
    Session σ :=
  let m := s.manager.setRoots roots
  match loaded with
  | .ok settings => s.withManager (m.reconfigure s.linter.now settings fun _ => 0)
  | .error text => (s.withManager m).send (.display .error text)

/-- Whether nothing will happen unless the editor sends something. -/
def isQuiet (s : Session σ) : Bool :=
  s.manager.nextDue?.isNone && s.manager.waiting.isEmpty && s.tickerHeld.isEmpty &&
    (s.ticker.isNone || (s.manager.queue.isEmpty && s.manager.published.changed.isEmpty))

def nextTime? (s : Session σ) : Option Nat :=
  match s.manager.nextDue?, s.ticker with
  | none, none => none
  | some (due, _), none => some due
  | none, some t => some t.due
  | some (due, _), some t => some (min due t.due)

/-- Let time pass up to the next time at which something happens, and let it happen. -/
def advance (run : Runner σ) (s : Session σ) : Session σ :=
  match s.nextTime? with
  | none => s
  | some time =>
    let s := { s with linter := s.linter.sleepUntil run time }
    match s.ticker with
    | some t => if t.due ≤ time then s.tick.announce else s
    | none => s

/-- Let one thing happen: the ticker sends a change that it holds, or time passes. -/
def goOn (run : Runner σ) (s : Session σ) : Session σ :=
  if s.tickerHeld.isEmpty then s.advance run else s.sendFromTicker

/-- Go on until something has come about or nothing more will happen, in at most `steps` steps. -/
def waitFor (run : Runner σ) (isDone : Session σ → Bool) : Nat → Session σ → Session σ
  | 0, s => s
  | steps + 1, s =>
    if isDone s || s.isQuiet then s else waitFor run isDone steps (s.goOn run)

end Session

end ModBench.Editor
