import Mathlib.Data.List.Basic
import ModBench.Proofs.Lint.Calm
import ModBench.Proofs.Lint.Plan

/-!
Waiting on the virtual clock.  While time passes, every debounce window that runs out leads to one
lint run, at the moment it runs out, and no other runs begin.
-/

set_option autoImplicit false
set_option relaxedAutoImplicit false

namespace ModBench

/-- The plan of a window that runs out up to a time. -/
def Plan.upTo (settings : LintSettings) (target : Nat) : Option (Trigger × Nat) → List Plan
  | none => []
  | some (trigger, due) => if due ≤ target then [⟨due, settings, trigger.root⟩] else []

/-- The window that stays open up to a time. -/
def stillOpen (target : Nat) : Option (Trigger × Nat) → Option (Trigger × Nat)
  | none => none
  | some (trigger, due) => if due ≤ target then none else some (trigger, due)

namespace Simulation

variable {σ : Type} {s : Simulation σ}

/-- The simulation is calm, and time has not passed what is due. -/
def Calm (s : Simulation σ) : Prop := s.manager.Calm s.now

theorem start_cases (run : Runner σ) (s : Simulation σ) (p : Pipeline) (trigger : Trigger) :
    ∃ course, (s.start run p trigger).manager = s.manager.begin p.id course s.now ∧
      (s.start run p trigger).now = s.now ∧
      (s.start run p trigger).attempts = s.attempts ++ [p.attempt trigger s.now] := by
  unfold start
  dsimp only
  split
  · exact ⟨default, rfl, rfl, rfl⟩
  · exact ⟨_, rfl, rfl, rfl⟩

private theorem unpolled_le_fire (run : Runner σ) (s : Simulation σ) (p : Pipeline) :
    s.manager.unpolled ≤ (s.fire run p).manager.unpolled := by
  unfold fire
  split
  · rename_i trigger _ _
    obtain ⟨course, manager, _⟩ := start_cases run s p trigger
    rw [manager]
    exact Nat.le_refl _
  · exact Manager.unpolled_le_finish _ _

private theorem unpolled_le_runUntil (run : Runner σ) (target steps : Nat) (s : Simulation σ) :
    s.manager.unpolled ≤ (s.runUntil run target steps).manager.unpolled := by
  induction steps generalizing s with
  | zero => exact Nat.le_refl _
  | succ steps ih =>
    rw [runUntil]
    split
    · exact Nat.le_refl _
    · rename_i due p _
      split
      · have first := unpolled_le_fire run { s with now := max s.now due } p
        exact Nat.le_trans first (ih _)
      · exact Nat.le_refl _

private theorem plans_append {s s' : Simulation σ} {a : Attempt}
    (h : s'.attempts = s.attempts ++ [a]) (p : Path) :
    s'.plans p = s.plans p ++ if p.same a.document = true then [a.plan] else [] := by
  by_cases same : p.same a.document = true
  · simp [plans, h, same]
  · simp [plans, h, same]

/-- What the first pipeline does when it goes on at its time: a window that runs out turns into the
plan that is carried out, and nothing else happens to windows and attempts. -/
structure Fired (s s' : Simulation σ) : Prop where
  calm : s'.Calm
  now : s'.now = s.now
  load : s'.manager.load < s.manager.load
  alike : s.manager.Alike s'.manager
  window : ∀ q target, s.now ≤ target →
    stillOpen target (s'.manager.window? q) = stillOpen target (s.manager.window? q)
  plans : ∀ q target, s.now ≤ target →
    s'.plans q ++ Plan.upTo s.manager.settings target (s'.manager.window? q) =
      s.plans q ++ Plan.upTo s.manager.settings target (s.manager.window? q)

private theorem fired_of_no_window {run : Runner σ} {before : Nat} (calm : s.manager.Calm before)
    {p : Pipeline} (next : s.manager.nextDue? = some (s.now, p)) (window : p.window? = none)
    (room : (s.fire run p).manager.unpolled ≤ queueCapacity) : s.Fired (s.fire run p) := by
  have finishes : s.fire run p = { s with manager := s.manager.finish p.id } := by
    unfold fire
    split
    · rename_i phase
      simp [Pipeline.window?, phase] at window
    · rfl
  rw [finishes] at room ⊢
  obtain ⟨calm', load, windows⟩ := calm.finish next window room
  refine ⟨calm', rfl, load, Manager.alike_finish _ _, ?_, ?_⟩
  · intro q target _
    rw [windows]
  · intro q target _
    rw [windows]
    rfl

private theorem fired_of_window {run : Runner σ} {before : Nat} (calm : s.manager.Calm before)
    {p : Pipeline} (next : s.manager.nextDue? = some (s.now, p)) {trigger : Trigger}
    (window : p.window? = some (trigger, s.now)) : s.Fired (s.fire run p) := by
  obtain ⟨d, t, here, rfl, _⟩ := calm.next next
  have starts : s.fire run t.pipeline = s.start run t.pipeline trigger := by
    rw [fire, Pipeline.phase_of_window window]
  obtain ⟨course, manager, now, attempts⟩ := start_cases run s t.pipeline trigger
  obtain ⟨calm', load, windows⟩ := calm.begin next window course
  have plan : (t.pipeline.attempt trigger s.now).plan =
      ⟨s.now, s.manager.settings, trigger.root⟩ := by
    rw [← (calm.settled here).settings]
    rfl
  have document : (t.pipeline.attempt trigger s.now).document = t.pipeline.document := rfl
  rw [starts]
  refine ⟨?_, now, ?_, ?_, ?_, ?_⟩
  · rw [Calm, manager, now]
    exact calm'
  · rw [manager]
    exact load
  · rw [manager]
    exact Manager.alike_updateById _ _ _
  · intro q target reached
    rw [manager, windows]
    split
    · rename_i same
      rw [Manager.window?_of_document calm.registered here same, window, stillOpen, stillOpen,
        if_pos reached]
    · rfl
  · intro q target reached
    rw [manager, windows, plans_append attempts, document, plan]
    split
    · rename_i same
      rw [Manager.window?_of_document calm.registered here same, window, Plan.upTo, Plan.upTo,
        if_pos reached, List.append_nil]
    · rw [List.append_nil]

private theorem fired {run : Runner σ} {before : Nat} (calm : s.manager.Calm before) {p : Pipeline}
    (next : s.manager.nextDue? = some (s.now, p))
    (room : (s.fire run p).manager.unpolled ≤ queueCapacity) : s.Fired (s.fire run p) := by
  cases window : p.window? with
  | none => exact fired_of_no_window calm next window room
  | some opened =>
    obtain ⟨trigger, due⟩ := opened
    obtain ⟨_, _, _, _, _, own, _⟩ := calm.next next
    have eq := Pipeline.due_of_window window
    rw [own] at eq
    obtain rfl : s.now = due := Option.some.inj eq
    exact fired_of_window calm next window

/-- Where nothing is due up to a time, that time can come without any change. -/
private theorem quiet_until {m : Manager} {now target : Nat} (calm : m.Calm now)
    (quiet : ∀ p ∈ m.pipelines, ∀ d, p.due? = some d → target < d) :
    m.Calm target ∧ ∀ q, m.window? q = stillOpen target (m.window? q) ∧
      Plan.upTo m.settings target (m.window? q) = [] := by
  have quiet' : ∀ {p t}, m.registered? p = some t → ∀ d, t.pipeline.due? = some d → target < d :=
    fun here => quiet _ ((Manager.mem_pipelines_iff calm.registered.sorted).2 ⟨_, _, here, rfl⟩)
  refine ⟨⟨calm.registered, calm.waiting, ?_⟩, ?_⟩
  · intro p t here
    have old := calm.settled here
    exact ⟨old.inbox, old.free, old.settings, fun d eq => Nat.le_of_lt (quiet' here d eq)⟩
  · intro q
    cases window : m.window? q with
    | none => exact ⟨rfl, rfl⟩
    | some opened =>
      obtain ⟨trigger, due⟩ := opened
      obtain ⟨t, here, own⟩ := Option.bind_eq_some_iff.1 window
      have later := quiet' here due (Pipeline.due_of_window own)
      simp only [stillOpen, Plan.upTo, if_neg (Nat.not_le_of_lt later), and_self]

/-- What becomes of a simulation when time passes up to a moment: each open window that runs out
until then leads to one attempt. -/
structure Passed (s s' : Simulation σ) (target : Nat) : Prop where
  calm : s'.manager.Calm target
  now_le : s'.now ≤ target
  alike : s.manager.Alike s'.manager
  window : ∀ q, s'.manager.window? q = stillOpen target (s.manager.window? q)
  plans : ∀ q, s'.plans q =
    s.plans q ++ Plan.upTo s.manager.settings target (s.manager.window? q)

private theorem passed_of_quiet {target : Nat} (calm : s.Calm) (le : s.now ≤ target)
    (quiet : ∀ p ∈ s.manager.pipelines, ∀ d, p.due? = some d → target < d) :
    s.Passed s target := by
  obtain ⟨calm', same⟩ := quiet_until calm quiet
  refine ⟨calm', le, .refl _, fun q => (same q).1, fun q => ?_⟩
  rw [(same q).2, List.append_nil]

private theorem runUntil_passed {run : Runner σ} {target steps : Nat} (calm : s.Calm)
    (enough : s.manager.load ≤ steps) (le : s.now ≤ target)
    (room : (s.runUntil run target steps).manager.unpolled ≤ queueCapacity) :
    s.Passed (s.runUntil run target steps) target := by
  -- The load goes down with every step, so the steps do not run out before it does.
  induction steps generalizing s with
  | zero =>
    have idle := Manager.due?_of_load (Nat.le_zero.1 enough)
    refine passed_of_quiet calm le fun p mem d eq => ?_
    rw [idle p mem] at eq
    cases eq
  | succ steps ih =>
    rw [runUntil] at room ⊢
    cases next : s.manager.nextDue? with
    | none =>
      have idle := Manager.nextDue?_eq_none next
      refine passed_of_quiet calm le fun p mem d eq => ?_
      rw [idle p mem] at eq
      cases eq
    | some first =>
      obtain ⟨due, p⟩ := first
      rw [next] at room
      dsimp only at room ⊢
      by_cases reached : due ≤ target
      · rw [if_pos reached] at room ⊢
        obtain ⟨_, _, _, _, _, _, present, _⟩ := Manager.Calm.next calm next
        rw [Nat.max_eq_right present] at room ⊢
        have room' := Nat.le_trans (unpolled_le_runUntil run target steps _) room
        have first : Simulation.Fired { s with now := due } (fire run { s with now := due } p) :=
          fired (s := { s with now := due }) calm next room'
        have load := first.load
        have reached' : (fire run { s with now := due } p).now ≤ target := by
          rw [first.now]
          exact reached
        have rest := ih first.calm (by dsimp only at load; omega) reached' room
        refine ⟨rest.calm, rest.now_le, first.alike.trans rest.alike, ?_, ?_⟩
        · intro q
          rw [rest.window]
          exact first.window q target reached
        · intro q
          rw [rest.plans, first.alike.settings]
          exact first.plans q target reached
      · rw [if_neg reached] at room ⊢
        obtain ⟨_, _, least⟩ := Manager.nextDue?_eq_some next
        refine passed_of_quiet calm le fun q mem d eq => ?_
        have := least q mem d eq
        omega

theorem sleep_passed {run : Runner σ} (calm : s.Calm) {length : Nat}
    (room : (s.sleep run length).manager.unpolled ≤ queueCapacity) :
    s.Passed (s.sleep run length) (s.now + length) ∧
      (s.sleep run length).now = s.now + length := by
  have same : s.modify (fun m now => m.refill now) = s := by
    rw [modify, calm.refill_eq]
  unfold sleep sleepUntil at room ⊢
  rw [same] at room ⊢
  dsimp only at room ⊢
  have passed : s.Passed (s.runUntil run (s.now + length) s.stepBound) (s.now + length) :=
    runUntil_passed calm (Manager.load_le _) (Nat.le_add_right s.now length) room
  have at_end : max (s.runUntil run (s.now + length) s.stepBound).now (s.now + length) =
      s.now + length := Nat.max_eq_right passed.now_le
  exact ⟨⟨passed.calm, Nat.le_of_eq at_end, passed.alike, passed.window, passed.plans⟩, at_end⟩

end Simulation

end ModBench
