import ModBench.Lint.Pipeline
import ModBench.Lint.Published
import ModBench.Lint.Roots

/-!
The lint manager: it tracks open documents, each with a pipeline, and applies the results that come
back through a queue of bounded length.  A result counts only when it comes from the pipeline that
is registered for its document.  New settings start the tracked documents over in the order of a
hash map, which is left to a rank of which nothing is known.
-/

set_option autoImplicit false
set_option relaxedAutoImplicit false

namespace ModBench

inductive NoticeLevel where
  | info
  | warning
  | error
  deriving DecidableEq, Repr, Inhabited

def NoticeLevel.label : NoticeLevel → String
  | info => "info"
  | warning => "warning"
  | error => "error"

/-- A message for the user. -/
structure Notice where
  level : NoticeLevel
  text : String
  deriving DecidableEq, Repr, Inhabited

/-- A tracked document's pipeline and the highest generation applied from it. -/
structure Tracked where
  pipeline : Pipeline
  applied : Nat := 0
  deriving Inhabited

/-- Length of the event queue. -/
def queueCapacity : Nat := 256

/-- The state of the linter of one host. -/
structure Manager where
  settings : LintSettings
  roots : List Path := []
  tracked : PathMap Tracked := []
  published : PublishedSet := {}
  /-- Results not yet applied, oldest first. -/
  queue : List Event := []
  /-- Results of blocked pipelines, in the order in which they will find room. -/
  waiting : List Event := []
  /-- The last pipeline number given out. -/
  lastId : Nat := 0
  /-- The number of lint requests so far. -/
  requests : Nat := 0
  /-- Notices given so far, oldest first. -/
  notices : List Notice := []

namespace Manager

/-- A manager with nothing tracked. -/
def new (settings : LintSettings) : Manager := { settings := settings }

/-- Replace the workspace roots; the next triggers see them. -/
def setRoots (m : Manager) (roots : List Path) : Manager :=
  { m with roots := roots }

/-- The deepest workspace root that contains a path. -/
def rootFor (m : Manager) (p : Path) : Option Path :=
  workspaceRoot? m.roots p

def isTracked (m : Manager) (p : Path) : Bool :=
  m.tracked.contains p

/-- The number of tracked documents. -/
def trackedCount (m : Manager) : Nat :=
  m.tracked.length

/-- Change the tracked document whose pipeline has a number. -/
def updateById (m : Manager) (id : Nat) (f : Pipeline → Pipeline) : Manager :=
  { m with tracked := m.tracked.map fun (p, t) =>
      (p, if t.pipeline.id = id then { t with pipeline := f t.pipeline } else t) }

/-- The next new pipeline, with its first trigger in the inbox. -/
def newcomer (m : Manager) (document : Path) (trigger : Trigger) : Tracked :=
  { pipeline :=
      { id := m.lastId + 1, document := document, settings := m.settings, inbox := [trigger] } }

/-- Register a new pipeline for a document and give it its first trigger. -/
def spawn (m : Manager) (document : Path) (trigger : Trigger) : Manager :=
  { m with
    lastId := m.lastId + 1,
    tracked := m.tracked.insert document (m.newcomer document trigger) }

/-- What a request for a document captures at present. -/
def nextTrigger (m : Manager) (document : Path) : Trigger :=
  ⟨m.rootFor document, m.requests + 1⟩

/-- Ask for a lint run of a document: its pipeline gets a trigger, or a new pipeline does when there
is none that takes triggers. -/
def request (m : Manager) (document : Path) : Manager :=
  let trigger := m.nextTrigger document
  let m := { m with requests := m.requests + 1 }
  match m.tracked.find? document with
  | none => m.spawn document trigger
  | some t =>
    if t.pipeline.isAlive then m.updateById t.pipeline.id fun p => p.post trigger
    else m.spawn document trigger

/-- Let every pipeline take in what is in its inbox. -/
def deliver (m : Manager) (now : Nat) : Manager :=
  { m with tracked := m.tracked.map fun (p, t) =>
      (p, { t with pipeline := t.pipeline.receiveAll now }) }

/-- Stop a document's pipeline, with whatever it is doing or waiting for. -/
def untrack (m : Manager) (document : Path) : Manager :=
  match m.tracked.find? document with
  | none => m
  | some t =>
    { m with
      tracked := m.tracked.erase document,
      waiting := m.waiting.filter fun e => e.pipeline != t.pipeline.id }

/-- A document was opened or saved: the answer is whether it is linted at all.  The trigger stays in
its inbox. -/
def submit (m : Manager) (document : Path) : Bool × Manager :=
  if m.settings.isEligible document then (true, m.request document) else (false, m)

/-- A document was opened or saved, and its pipeline learns of it at once. -/
def visible (m : Manager) (now : Nat) (document : Path) : Bool × Manager :=
  let (seen, m) := m.submit document
  (seen, m.deliver now)

def close (m : Manager) (document : Path) : Manager :=
  let m := m.untrack document
  { m with published := m.published.clear document }

/-- Start a tracked document over under the present settings, or drop it. -/
def restart (m : Manager) (document : Path) : Manager :=
  let m := m.untrack document
  if m.settings.isEligible document then m.request document
  else { m with published := m.published.clear document }

/-- Replace the settings and start every tracked document over, in the order of some rank; the
triggers stay in their inboxes. -/
def renew (m : Manager) (settings : LintSettings) (rank : PathMap.Rank) : Manager :=
  (m.tracked.keysBy rank).foldl restart { m with settings := settings }

/-- Replace the settings and start every tracked document over at once. -/
def reconfigure (m : Manager) (now : Nat) (settings : LintSettings) (rank : PathMap.Rank) :
    Manager :=
  (m.renew settings rank).deliver now

/-- Whether an event comes from its document's registered pipeline and is not older than what was
applied from it. -/
def accepts (m : Manager) (e : Event) : Bool :=
  match m.tracked.find? e.document with
  | none => false
  | some t => t.pipeline.id == e.pipeline && t.applied ≤ e.generation

/-- Record that an event's generation was applied. -/
def markApplied (m : Manager) (e : Event) : Manager :=
  { m with tracked := m.tracked.adjust e.document fun t => { t with applied := e.generation } }

/-- Give an error notice. -/
def notice (m : Manager) (text : String) : Manager :=
  { m with notices := m.notices ++ [⟨.error, text⟩] }

def applyResult (m : Manager) (e : Event) : Manager :=
  match e.result with
  | .ok outcome => { m with published := m.published.publish outcome.records outcome.baseDir }
  | .error (.configuration missing) => m.notice missing.message
  | .error (.process error) =>
    let m := m.notice error.message
    { m with published := m.published.clear e.document }

/-- Apply an event if it is accepted. -/
def handle (m : Manager) (e : Event) : Manager :=
  if m.accepts e then (m.markApplied e).applyResult e else m

/-- Take the oldest event from the queue and handle it. -/
def next (m : Manager) : Manager :=
  match m.queue with
  | [] => m
  | e :: rest => { m with queue := rest }.handle e

/-- Take events from the queue and handle them, at most as many as the budget allows; the answer is
their number. -/
def poll (m : Manager) : Nat → Nat × Manager
  | 0 => (0, m)
  | budget + 1 =>
    if m.queue.isEmpty then (0, m)
    else
      let (count, m) := m.next.poll budget
      (count + 1, m)

/-- Take all events that are queued. -/
def pollAll (m : Manager) : Nat × Manager :=
  m.poll m.queue.length

/-- The published files as they are shown. -/
def snapshot (m : Manager) : Snapshot :=
  m.published.snapshot

def current (m : Manager) (p : Path) : List Record :=
  (m.published.get? p).getD []

def takeChanges (m : Manager) : List FileRecords × Manager :=
  (m.published.changes, { m with published := m.published.takeChanges.2 })

def takeNotices (m : Manager) : List Notice × Manager :=
  (m.notices, { m with notices := [] })

/-- Stop everything and take every file out of the published set. -/
def shutdown (m : Manager) : Manager :=
  { m with tracked := [], queue := [], waiting := [], published := m.published.clearAll }

/-- The pipelines of the tracked documents. -/
def pipelines (m : Manager) : List Pipeline :=
  m.tracked.map fun (_, t) => t.pipeline

def pipeline? (m : Manager) (id : Nat) : Option Pipeline :=
  m.pipelines.find? fun p => p.id == id

/-- Let a pipeline take in the oldest trigger of its inbox. -/
def receive (m : Manager) (id : Nat) (now : Nat) : Manager :=
  m.updateById id fun p => p.receive now

/-- Close the debounce window of a pipeline and begin its lint run; the compiler's run would go as
given. -/
def begin (m : Manager) (id : Nat) (run : Run) (now : Nat) : Manager :=
  m.updateById id fun p => p.begin run now

/-- Put an event of a pipeline into the queue, or behind those that wait for room. -/
def send (m : Manager) (e : Event) : Manager :=
  if m.queue.length < queueCapacity && m.waiting.isEmpty then
    { m.updateById e.pipeline fun p => { p with phase := .idle } with queue := m.queue ++ [e] }
  else
    { m.updateById e.pipeline fun p => { p with phase := .blocked } with
      waiting := m.waiting ++ [e] }

/-- Let the lint run of a pipeline end as it will: its result goes to the queue, and a crash takes
the pipeline down. -/
def finish (m : Manager) (id : Nat) : Manager :=
  match m.pipeline? id with
  | none => m
  | some p =>
    match p.phase with
    | .running trigger (.result result) _ => m.send (p.event trigger result)
    | .running _ .crash _ => m.updateById id fun p => { p with phase := .ended }
    | _ => m

/-- Let the waiting result of a pipeline enter the queue if there is room. -/
def enter (m : Manager) (id : Nat) : Manager :=
  match m.waiting.find? fun e => e.pipeline == id with
  | none => m
  | some e =>
    if m.queue.length < queueCapacity then
      { m.updateById id Pipeline.resume with
        queue := m.queue ++ [e],
        waiting := m.waiting.eraseP fun e => e.pipeline == id }
    else m

/-- Let waiting results into the queue as far as there is room, the oldest first. -/
def refill (m : Manager) (now : Nat) : Manager :=
  (m.waiting.foldl (fun m e => m.enter e.pipeline) m).deliver now

/-- The later pipeline if it goes on before the best one so far: at an earlier time, or at the same
time for an earlier request. -/
def sooner (best : Option (Nat × Pipeline)) (p : Pipeline) : Option (Nat × Pipeline) :=
  match p.due?, best with
  | none, _ => best
  | some due, none => some (due, p)
  | some due, some (old, q) =>
    if due < old ∨ due = old ∧ p.turn < q.turn then some (due, p) else some (old, q)

/-- The pipeline that goes on first, with its time; of two at the same time the one that was asked
first. -/
def nextDue? (m : Manager) : Option (Nat × Pipeline) :=
  m.pipelines.foldl sooner none

end Manager

end ModBench
