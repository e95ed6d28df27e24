import ModBench.Lint.Simulation

/-!
The plan of lint runs.  It is read off the operations of a host alone: nothing in it depends on what
pipelines do, how long runs take or how they end.
-/

set_option autoImplicit false
set_option relaxedAutoImplicit false

namespace ModBench

/-- When a lint run begins, and with which settings and root. -/
structure Plan where
  time : Nat
  settings : LintSettings
  root : Option Path
  deriving DecidableEq, Repr

def Attempt.plan (a : Attempt) : Plan := ⟨a.time, a.settings, a.root⟩

/-- The compiler call of an attempt: there is one if the compiler and the script blob are set.  It
lints the root, or the document where there is none. -/
def Attempt.call? (a : Attempt) : Option Call :=
  match a.settings.compiler, a.settings.blob with
  | some compiler, some blob =>
    let source := a.root.getD a.document
    some ⟨⟨compiler, [.ofString "lint", .ofString "-s", source, .ofString "-b", blob], a.root⟩,
      a.time⟩
  | _, _ => none

/-- The plans carried out for a document. -/
def Simulation.plans {σ : Type} (s : Simulation σ) (p : Path) : List Plan :=
  (s.attempts.filter fun a => p.same a.document).map Attempt.plan

/-- What operations alone determine, as far as a document depends on it. -/
structure Circumstances where
  now : Nat
  settings : LintSettings
  roots : List Path
  tracked : Bool

namespace Circumstances

def after (p : Path) (c : Circumstances) : Operation → Circumstances
  | .visible document =>
    { c with tracked := c.tracked || (p.same document && c.settings.isEligible document) }
  | .close document => { c with tracked := c.tracked && !p.same document }
  | .setRoots roots => { c with roots := roots }
  | .reconfigure settings _ =>
    { c with settings := settings, tracked := c.tracked && settings.isEligible p }
  | .shutdown => { c with tracked := false }
  | .sleep length => { c with now := c.now + length }
  | .poll _ => c
  | .takeChanges => c

/-- Whether an operation is a trigger of the document: it is opened or saved and eligible, or it is
tracked and stays eligible under new settings. -/
def triggers (p : Path) (c : Circumstances) : Operation → Bool
  | .visible document => p.same document && c.settings.isEligible document
  | .reconfigure settings _ => c.tracked && settings.isEligible p
  | _ => false

/-- Whether an operation ends a debounce window of the document before its time. -/
def disturbs (p : Path) (c : Circumstances) : Operation → Bool
  | .visible document => p.same document && c.settings.isEligible document
  | .close document => p.same document
  | .reconfigure _ _ => true
  | .shutdown => true
  | _ => false

/-- Every trigger of a document ends the window that is open for it. -/
theorem not_triggers_of_not_disturbs {p : Path} {c : Circumstances} {operation : Operation}
    (undisturbed : c.disturbs p operation = false) : c.triggers p operation = false := by
  cases operation with
  | visible document => exact undisturbed
  | reconfigure settings _ => cases undisturbed
  | _ => rfl

/-- Whether a window of the document that is open for another `wait` runs out undisturbed.  What is
due already goes on when the clock next moves. -/
def survives (p : Path) (c : Circumstances) (wait : Nat) : List Operation → Bool
  | [] => false
  | .sleep length :: rest =>
    wait ≤ length || survives p (c.after p (.sleep length)) (wait - length) rest
  | operation :: rest => !c.disturbs p operation && survives p (c.after p operation) wait rest

/-- The lint runs of a document: one for each of its triggers that is not disturbed during the
debounce time, when that time is over, with the settings and the root of the trigger. -/
def planned (p : Path) (c : Circumstances) : List Operation → List Plan
  | [] => []
  | operation :: rest =>
    let next := c.after p operation
    let wait := next.settings.options.debounce
    let runs := c.triggers p operation && next.survives p wait rest
    (if runs then [⟨next.now + wait, next.settings, workspaceRoot? next.roots p⟩] else []) ++
      next.planned p rest

end Circumstances

end ModBench
