import ModBench.Editor.Session
import ModBench.Lint.History

/-!
A session step by step.  The linter, the ticker and the handlers of requests go on in any order, one
step at a time; sending one change is a step, so that a task can be overtaken while it holds changes
that it took.  A handler that closes a document, say, is a step of the linter, a taking, and a step
for every change that it then sends.
-/

set_option autoImplicit false
set_option relaxedAutoImplicit false

namespace ModBench.Editor

inductive Step where
  /-- A handler or a pipeline does something with the linter, other than taking the changes. -/
  | lint (a : Act) (keeps : a ≠ .takeChanges)
  | announce
  | tick
  | sendFromTicker
  | takeParcel
  | sendFromParcel (index : Nat)
  /-- A ticker starts; one that was there is given up, with what it holds. -/
  | startTicker
  | stopTicker
  /-- The editor asks for the end. -/
  | closing

namespace Session

variable {σ : Type}

/-- A session whose conversation was opened. -/
def opened (runner : σ) : Session σ :=
  { new runner with stage := .ready }

def step (s : Session σ) : Step → Session σ
  | .lint a _ => s.withManager (s.manager.act a)
  | .announce => s.announce
  | .tick => s.tick
  | .sendFromTicker => s.sendFromTicker
  | .takeParcel => s.takeParcel
  | .sendFromParcel index => s.sendFromParcel index
  | .startTicker => s.startTicker
  | .stopTicker => { s with ticker := none }
  | .closing => { s with stage := .closing }

def steps (s : Session σ) (run : List Step) : Session σ :=
  run.foldl step s

end Session

/-! ### What is under way for a path -/

/-- The lists for a path among some changes. -/
def listsFor (p : Path) (changes : List FileRecords) : List (List Record) :=
  (changes.filter fun f => p.same f.1).map Prod.snd

/-- What an editor shows for a URL after some messages: the diagnostics that it got last. -/
def shown (uri : String) (messages : List Message) : List Diagnostic :=
  messages.foldl (fun before m =>
    match m with
    | .publish other diagnostics => if other = uri then diagnostics else before
    | _ => before) []

namespace Session

variable {σ : Type}

/-- The lists for a path that tasks took and have not sent. -/
def heldFor (s : Session σ) (p : Path) : List (List Record) :=
  listsFor p (s.tickerHeld ++ s.parcels.flatten)

/-- The lists for a path that a step takes. -/
def takenFor (s : Session σ) (p : Path) : Step → List (List Record)
  | .tick =>
    match s.ticker with
    | some ⟨_, []⟩ => listsFor p (s.manager.poll tickBudget).2.published.changes
    | _ => []
  | .takeParcel => listsFor p s.manager.published.changes
  | _ => []

/-- The lists for a path that a step gives up. -/
def lostFor (s : Session σ) (p : Path) : Step → List (List Record)
  | .startTicker => listsFor p s.tickerHeld
  | .stopTicker => listsFor p s.tickerHeld
  | _ => []

/-- A step takes a list for the path only when no task holds one, and gives none up. -/
def Careful (p : Path) (s : Session σ) (a : Step) : Prop :=
  (s.takenFor p a ≠ [] → s.heldFor p = []) ∧ s.lostFor p a = []

instance (p : Path) (s : Session σ) (a : Step) : Decidable (s.Careful p a) :=
  inferInstanceAs (Decidable (_ ∧ _))

/-- All steps of a run are careful about the path. -/
def Orderly (p : Path) : Session σ → List Step → Prop
  | _, [] => True
  | s, a :: run => s.Careful p a ∧ Orderly p (s.step a) run

instance decidableOrderly (p : Path) :
    ∀ (s : Session σ) (run : List Step), Decidable (s.Orderly p run)
  | _, [] => .isTrue trivial
  | s, a :: run =>
    haveI := decidableOrderly p (s.step a) run
    inferInstanceAs (Decidable (_ ∧ _))

end Session

end ModBench.Editor
