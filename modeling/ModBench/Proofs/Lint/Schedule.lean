import Mathlib.Data.List.Infix
import ModBench.Proofs.Lint.Outcome

/-!
The schedule of lint runs.  As long as results are handled before too many of them pile up, the runs
that a simulation begins are those that its operations plan, whatever the runs do and however long
they take; and a run consists of one compiler call, or of none where a setting is absent.
-/

set_option autoImplicit false
set_option relaxedAutoImplicit false

namespace ModBench

/-- The operation takes no time. -/
def Operation.Awake (operation : Operation) : Prop :=
  ∀ length, operation ≠ .sleep length

/-! ### Plans -/

namespace Circumstances

variable {p : Path} {c : Circumstances} {operation : Operation}

theorem survives_cons (awake : operation.Awake) (wait : Nat)
    (rest : List Operation) : c.survives p wait (operation :: rest) =
      (!c.disturbs p operation && (c.after p operation).survives p wait rest) := by
  cases operation with
  | sleep length => exact absurd rfl (awake length)
  | _ => rfl

private theorem settings_after (undisturbed : c.disturbs p operation = false) :
    (c.after p operation).settings = c.settings := by
  cases operation with
  | reconfigure settings rank => cases undisturbed
  | _ => rfl

private theorem now_after (awake : operation.Awake) :
    (c.after p operation).now = c.now := by
  cases operation with
  | sleep length => exact absurd rfl (awake length)
  | _ => rfl

/-- The plan of an open window: there is one if the window runs out undisturbed. -/
def pending (p : Path) (c : Circumstances) (operations : List Operation) :
    Option (Trigger × Nat) → List Plan
  | none => []
  | some (trigger, due) =>
    if c.survives p (due - c.now) operations then [⟨due, c.settings, trigger.root⟩] else []

private theorem pending_nil (window : Option (Trigger × Nat)) : c.pending p [] window = [] := by
  cases window <;> rfl

/-- While time passes, the plan of a window comes due or stays pending. -/
private theorem pending_sleep (length : Nat) (rest : List Operation)
    (window : Option (Trigger × Nat)) :
    c.pending p (.sleep length :: rest) window =
      Plan.upTo c.settings (c.now + length) window ++
        (c.after p (.sleep length)).pending p rest (stillOpen (c.now + length) window) := by
  cases window with
  | none => rfl
  | some opened =>
    obtain ⟨trigger, due⟩ := opened
    simp only [pending, survives, Plan.upTo, stillOpen]
    by_cases reached : due ≤ c.now + length
    · have ended : due - c.now ≤ length := by omega
      simp [reached, ended]
    · have open_still : ¬ due - c.now ≤ length := by omega
      have left : due - c.now - length = due - (c.now + length) := by omega
      simp only [reached, open_still, decide_false, Bool.false_or, if_false, List.nil_append, left]
      rfl

private theorem pending_of_disturbs (awake : operation.Awake)
    (disturbed : c.disturbs p operation = true) (rest : List Operation)
    (window : Option (Trigger × Nat)) : c.pending p (operation :: rest) window = [] := by
  cases window with
  | none => rfl
  | some opened =>
    simp only [pending, survives_cons awake, disturbed, Bool.not_true, Bool.false_and,
      Bool.false_eq_true, if_false]

private theorem pending_of_undisturbed (awake : operation.Awake)
    (undisturbed : c.disturbs p operation = false) (rest : List Operation)
    (window : Option (Trigger × Nat)) :
    c.pending p (operation :: rest) window = (c.after p operation).pending p rest window := by
  cases window with
  | none => rfl
  | some opened =>
    simp only [pending, survives_cons awake, undisturbed, Bool.not_false, Bool.true_and,
      now_after awake, settings_after undisturbed]

/-- What a trigger plans is what the window that it opens leaves pending. -/
private theorem planned_of_triggers (triggered : c.triggers p operation = true)
    (rest : List Operation) (number : Nat) : c.planned p (operation :: rest) =
      (c.after p operation).pending p rest
          (some (⟨workspaceRoot? (c.after p operation).roots p, number⟩,
            (c.after p operation).now + (c.after p operation).settings.options.debounce)) ++
        (c.after p operation).planned p rest := by
  simp only [planned, pending, triggered, Bool.true_and, Nat.add_sub_cancel_left]

private theorem planned_of_not_triggers (untriggered : c.triggers p operation = false)
    (rest : List Operation) :
    c.planned p (operation :: rest) = (c.after p operation).planned p rest := by
  simp only [planned, untriggered, Bool.false_and, Bool.false_eq_true, if_false, List.nil_append]

end Circumstances

namespace Simulation

variable {σ : Type} {s : Simulation σ}

/-- What a document depends on. -/
def circumstances (s : Simulation σ) (p : Path) : Circumstances :=
  s.manager.circumstances s.now p

/-- At no time there are more results that wait to be handled than the queue holds. -/
def Roomy (run : Runner σ) (s : Simulation σ) (operations : List Operation) : Prop :=
  ∀ before ∈ operations.inits, (s.performAll run before).manager.unpolled ≤ queueCapacity

instance (run : Runner σ) (s : Simulation σ) (operations : List Operation) :
    Decidable (Roomy run s operations) :=
  inferInstanceAs (Decidable (∀ before ∈ operations.inits,
    (s.performAll run before).manager.unpolled ≤ queueCapacity))

private theorem Roomy.first {run : Runner σ} {operation : Operation} {rest : List Operation}
    (roomy : Roomy run s (operation :: rest)) :
    (s.perform run operation).manager.unpolled ≤ queueCapacity :=
  roomy [operation] (by simp)

private theorem Roomy.tail {run : Runner σ} {operation : Operation} {rest : List Operation}
    (roomy : Roomy run s (operation :: rest)) : Roomy run (s.perform run operation) rest := by
  intro before mem
  exact roomy (operation :: before) (by simpa using mem)

/-! ### One operation -/

/-- An operation other than waiting changes nothing but the manager. -/
private theorem perform_outcome (run : Runner σ) (calm : s.Calm) {operation : Operation}
    (awake : operation.Awake) :
    ∃ m, s.perform run operation = { s with manager := m } ∧
      Manager.Outcome s.now operation s.manager m := by
  cases operation with
  | visible document => exact ⟨_, rfl, Manager.outcome_visible calm document⟩
  | close document => exact ⟨_, rfl, Manager.outcome_close calm document⟩
  | setRoots roots => exact ⟨_, rfl, Manager.outcome_setRoots calm roots⟩
  | reconfigure settings rank => exact ⟨_, rfl, Manager.outcome_reconfigure calm settings rank⟩
  | poll budget => exact ⟨_, rfl, Manager.outcome_poll calm budget⟩
  | takeChanges => exact ⟨_, rfl, Manager.outcome_takeChanges calm⟩
  | shutdown => exact ⟨_, rfl, Manager.outcome_shutdown calm⟩
  | sleep length => exact absurd rfl (awake length)

/-- The plans that are still to be carried out for a document: that of its open window, and those
of the triggers to come. -/
def outlook (s : Simulation σ) (p : Path) (operations : List Operation) : List Plan :=
  (s.circumstances p).pending p operations (s.manager.window? p) ++
    (s.circumstances p).planned p operations

/-- What an operation carries out is what the outlook loses. -/
structure Advance (operation : Operation) (s s' : Simulation σ) : Prop where
  calm : s'.Calm
  outlook : ∀ p rest, s.plans p ++ s.outlook p (operation :: rest) = s'.plans p ++ s'.outlook p rest

private theorem advance_sleep (run : Runner σ) (calm : s.Calm) {length : Nat}
    (room : (s.sleep run length).manager.unpolled ≤ queueCapacity) :
    Advance (.sleep length) s (s.sleep run length) := by
  obtain ⟨passed, now⟩ := sleep_passed calm room
  have calm' : (s.sleep run length).Calm := by
    rw [Calm, now]
    exact passed.calm
  refine ⟨calm', ?_⟩
  intro p rest
  have same : (s.sleep run length).circumstances p =
      (s.circumstances p).after p (.sleep length) := by
    rw [circumstances, passed.alike.circumstances, now]
    rfl
  have triggers_nothing : (s.circumstances p).planned p (.sleep length :: rest) =
      ((s.circumstances p).after p (.sleep length)).planned p rest := rfl
  rw [outlook, outlook, same, passed.plans, passed.window, Circumstances.pending_sleep,
    triggers_nothing]
  simp only [List.append_assoc]
  rfl

private theorem advance_of_outcome {operation : Operation} {m : Manager} (awake : operation.Awake)
    (outcome : Manager.Outcome s.now operation s.manager m) :
    Advance operation s { s with manager := m } := by
  refine ⟨outcome.calm, ?_⟩
  intro p rest
  have same : ({ s with manager := m } : Simulation σ).circumstances p =
      (s.circumstances p).after p operation := outcome.circumstances p
  have plans : ({ s with manager := m } : Simulation σ).plans p = s.plans p := rfl
  rw [plans, outlook, outlook]
  dsimp only
  -- A window is left alone, closed, or closed and opened anew.
  cases disturbed : (s.circumstances p).disturbs p operation with
  | false =>
    have untriggered := Circumstances.not_triggers_of_not_disturbs disturbed
    rw [outcome.left p disturbed, same, Circumstances.pending_of_undisturbed awake disturbed,
      Circumstances.planned_of_not_triggers untriggered]
  | true =>
    rw [Circumstances.pending_of_disturbs awake disturbed, List.nil_append]
    cases triggered : (s.circumstances p).triggers p operation with
    | false =>
      rw [outcome.closed p triggered disturbed, same,
        Circumstances.planned_of_not_triggers triggered]
      rfl
    | true =>
      obtain ⟨number, window⟩ := outcome.opened p triggered
      rw [window, Circumstances.planned_of_triggers triggered rest number, ← same]
      rfl

private theorem advance_perform (run : Runner σ) (calm : s.Calm) {operation : Operation}
    (room : (s.perform run operation).manager.unpolled ≤ queueCapacity) :
    Advance operation s (s.perform run operation) := by
  by_cases asleep : ∃ length, operation = .sleep length
  · obtain ⟨length, rfl⟩ := asleep
    exact advance_sleep run calm room
  · have awake : operation.Awake := fun length eq => asleep ⟨length, eq⟩
    obtain ⟨m, performed, outcome⟩ := perform_outcome run calm awake
    rw [performed]
    exact advance_of_outcome awake outcome

/-- Once all operations were carried out, so was the outlook. -/
private theorem plans_performAll {run : Runner σ} (calm : s.Calm) {operations : List Operation}
    (roomy : Roomy run s operations) (p : Path) :
    (s.performAll run operations).plans p = s.plans p ++ s.outlook p operations := by
  induction operations generalizing s with
  | nil =>
    rw [outlook, Circumstances.pending_nil]
    exact (List.append_nil _).symm
  | cons operation rest ih =>
    have advance := advance_perform run calm roomy.first
    rw [advance.outlook p rest]
    exact ih advance.calm roomy.tail

/-! ### Calls -/

/-- The calls are those of the attempts, and the runner was asked for nothing else. -/
structure Accounted (run : Runner σ) (initial : σ) (s : Simulation σ) : Prop where
  calls : s.calls = s.attempts.filterMap Attempt.call?
  runner : s.runner = s.calls.foldl (fun state call => (run call.command state).2) initial

private theorem call?_attempt (p : Pipeline) (trigger : Trigger) (now : Nat) :
    (p.attempt trigger now).call? =
      match p.commandFor trigger with
      | .error _ => none
      | .ok command => some ⟨command, now⟩ := by
  unfold Attempt.call? Pipeline.attempt Pipeline.commandFor LintSettings.commandFor
    LintSettings.lintCommand
  cases p.settings.compiler with
  | none => rfl
  | some compiler => cases p.settings.blob <;> rfl

variable {run : Runner σ} {initial : σ}

private theorem Accounted.start (accounted : Accounted run initial s) (p : Pipeline)
    (trigger : Trigger) : Accounted run initial (s.start run p trigger) := by
  have call := call?_attempt p trigger s.now
  unfold Simulation.start
  dsimp only
  cases asked : p.commandFor trigger with
  | error missing =>
    rw [asked] at call
    refine ⟨?_, accounted.runner⟩
    simp only [List.filterMap_append, List.filterMap_cons, List.filterMap_nil, call,
      List.append_nil, accounted.calls]
  | ok command =>
    rw [asked] at call
    constructor
    · simp only [List.filterMap_append, List.filterMap_cons, List.filterMap_nil, call,
        accounted.calls]
    · simp only [List.foldl_append, List.foldl_cons, List.foldl_nil, ← accounted.runner]

private theorem Accounted.fire (accounted : Accounted run initial s) (p : Pipeline) :
    Accounted run initial (s.fire run p) := by
  unfold Simulation.fire
  split
  · exact accounted.start p _
  · exact ⟨accounted.calls, accounted.runner⟩

private theorem Accounted.runUntil (accounted : Accounted run initial s) (target steps : Nat) :
    Accounted run initial (s.runUntil run target steps) := by
  induction steps generalizing s with
  | zero => exact accounted
  | succ steps ih =>
    rw [Simulation.runUntil]
    split
    · exact accounted
    · rename_i due p _
      split
      · have moved : Accounted run initial { s with now := max s.now due } :=
          ⟨accounted.calls, accounted.runner⟩
        exact ih (moved.fire p)
      · exact accounted

private theorem Accounted.perform (accounted : Accounted run initial s) (operation : Operation) :
    Accounted run initial (s.perform run operation) := by
  cases operation with
  | sleep length =>
    have refilled : Accounted run initial (s.modify fun m now => m.refill now) :=
      ⟨accounted.calls, accounted.runner⟩
    have passed := refilled.runUntil (s.now + length)
      (s.modify fun m now => m.refill now).stepBound
    exact ⟨passed.calls, passed.runner⟩
  | _ => exact ⟨accounted.calls, accounted.runner⟩

private theorem Accounted.performAll (accounted : Accounted run initial s)
    (operations : List Operation) : Accounted run initial (s.performAll run operations) := by
  induction operations generalizing s with
  | nil => exact accounted
  | cons operation rest ih => exact ih (accounted.perform operation)

/-! ### Main result -/

/-- The simulation with which a host begins. -/
def initially (settings : LintSettings) (initial : σ) : Simulation σ :=
  { manager := .new settings, runner := initial }

private theorem calm_initially (settings : LintSettings) (initial : σ) :
    (initially settings initial).Calm where
  registered := Manager.registered_new settings
  waiting := rfl
  settled := fun here => by cases here

/-- The lint runs of every document are those that the operations plan, and each of them makes the
one compiler call that its settings and its root ask for, or none where a setting is absent. -/
theorem attempts_are_planned (run : Runner σ) (settings : LintSettings) (initial : σ)
    (operations : List Operation) (roomy : Roomy run (initially settings initial) operations) :
    (∀ p, ((initially settings initial).performAll run operations).plans p =
        (⟨0, settings, [], false⟩ : Circumstances).planned p operations) ∧
      Accounted run initial ((initially settings initial).performAll run operations) := by
  refine ⟨fun p => ?_, ?_⟩
  · exact plans_performAll (calm_initially settings initial) roomy p
  · have nothing_yet : Accounted run initial (initially settings initial) := ⟨rfl, rfl⟩
    exact nothing_yet.performAll operations

/-- A document that is saved again during the debounce time, from then on below a root. -/
def burst (document root : Path) : List Operation :=
  [.visible document, .sleep 100, .setRoots [root], .visible document, .sleep 250, .poll 8]

/-- A runner that counts its runs, each of which succeeds after some time. -/
def countingRunner : Runner Nat := fun _ count => (⟨30, some (.ok {})⟩, count + 1)

/-- Settings under which there is something to run. -/
def completeSettings : LintSettings :=
  { compiler := some (Path.ofString "/bin/compiler"), blob := some (Path.ofString "/blob") }

theorem burst_runs_once :
    Roomy countingRunner (initially completeSettings 0)
        (burst (Path.ofString "/ws/a.reds") (Path.ofString "/ws")) ∧
      ((initially completeSettings 0).performAll countingRunner
        (burst (Path.ofString "/ws/a.reds") (Path.ofString "/ws"))).plans
          (Path.ofString "/ws/a.reds") =
        [⟨300, completeSettings, some (Path.ofString "/ws")⟩] := by
  have roomy : Roomy countingRunner (initially completeSettings 0)
      (burst (Path.ofString "/ws/a.reds") (Path.ofString "/ws")) := by decide
  have planned := (attempts_are_planned countingRunner completeSettings 0 _ roomy).1
    (Path.ofString "/ws/a.reds")
  exact ⟨roomy, planned.trans (by decide)⟩

end Simulation

end ModBench
