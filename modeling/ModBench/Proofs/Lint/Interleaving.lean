import Mathlib.Logic.Function.Iterate
import ModBench.Lint.Simulation
import ModBench.Proofs.Lint.Due

/-!
Simulations as histories.  What happens on the virtual clock is one of the histories: the clock only
picks the order in which pipelines go on, and the runner only picks how runs go.
-/

set_option autoImplicit false
set_option relaxedAutoImplicit false

namespace ModBench

namespace Pipeline

variable {p : Pipeline} {now : Nat}

/-- A pipeline takes in nothing, or its oldest trigger. -/
private theorem receive_cases (p : Pipeline) (now : Nat) : p.receive now = p ∨
    ∃ trigger rest, p.inbox = trigger :: rest ∧ (p.receive now).inbox = rest := by
  unfold receive
  split
  · exact Or.inl rfl
  · exact Or.inl rfl
  · exact Or.inl rfl
  · rename_i trigger rest inbox _ _
    exact Or.inr ⟨trigger, rest, inbox, rfl⟩

/-- More steps than there are triggers take in no more. -/
private theorem iterate_receive {n : Nat} (enough : p.inbox.length ≤ n) :
    (fun p => p.receive now)^[n] p = p.receiveAll now := by
  induction n generalizing p with
  | zero =>
    have empty : p.inbox = [] := List.eq_nil_of_length_eq_zero (Nat.le_zero.1 enough)
    rw [receiveAll, empty]
    rfl
  | succ n ih =>
    rw [Function.iterate_succ_apply]
    rcases receive_cases p now with still | ⟨trigger, rest, inbox, left⟩
    · -- What takes in nothing once is blocked, down or empty, and stays so.
      have fixed : ∀ inbox : List Trigger, inbox.foldl (fun p _ => p.receive now) p = p := by
        intro inbox
        induction inbox with
        | nil => rfl
        | cons _ _ ih => rw [List.foldl_cons, still, ih]
      rw [still, Function.iterate_fixed still, receiveAll, fixed]
    · have less : (p.receive now).inbox.length ≤ n := by
        rw [left]
        simpa [inbox] using enough
      rw [ih less, receiveAll, receiveAll, left, inbox, List.foldl_cons]

end Pipeline

namespace Manager

variable {m : Manager}

/-! ### Delivery -/

def mapPipelines (m : Manager) (f : Pipeline → Pipeline) : Manager :=
  { m with tracked := m.tracked.map fun (p, t) => (p, { t with pipeline := f t.pipeline }) }

private theorem updateById_eq_mapPipelines (m : Manager) (id : Nat) (f : Pipeline → Pipeline) :
    m.updateById id f = m.mapPipelines fun p => if p.id = id then f p else p := by
  unfold updateById mapPipelines
  congr 2
  funext e
  dsimp only
  split <;> rfl

private theorem mapPipelines_id (m : Manager) : m.mapPipelines (fun p => p) = m := by
  have same : m.tracked.map (fun e => (e.1, e.2)) = m.tracked := List.map_id _
  exact congrArg (fun tracked => { m with tracked := tracked }) same

private theorem mapPipelines_mapPipelines (m : Manager) (f g : Pipeline → Pipeline) :
    (m.mapPipelines f).mapPipelines g = m.mapPipelines fun p => g (f p) := by
  simp only [mapPipelines, List.map_map, Function.comp_def]

theorem mapPipelines_congr {f g : Pipeline → Pipeline} (same : ∀ p ∈ m.pipelines, f p = g p) :
    m.mapPipelines f = m.mapPipelines g := by
  unfold mapPipelines
  congr 1
  apply List.map_congr_left
  intro e mem
  have changed := same e.2.pipeline (List.mem_map.2 ⟨e, mem, rfl⟩)
  dsimp only
  rw [changed]

/-- Pipelines take in triggers, as their numbers stand in a list. -/
private theorem after_receives (m : Manager) (ids : List Nat) (now : Nat) :
    m.after (ids.map fun id => .receive id now) =
      m.mapPipelines fun p => (fun p => p.receive now)^[ids.count p.id] p := by
  induction ids generalizing m with
  | nil => exact (mapPipelines_id m).symm
  | cons id ids ih =>
    have first : m.act (.receive id now) =
        m.mapPipelines fun p => if p.id = id then p.receive now else p :=
      updateById_eq_mapPipelines m id fun p => p.receive now
    rw [List.map_cons, after, List.foldl_cons, ← after, ih, first, mapPipelines_mapPipelines]
    apply mapPipelines_congr
    intro p _
    by_cases named : p.id = id
    · rw [if_pos named, (p.receive_keeps now).1, named, List.count_cons_self,
        Function.iterate_succ_apply]
    · rw [if_neg named, List.count_cons_of_ne (Ne.symm named)]

/-- The numbers of all pipelines, each as often as it has triggers to take in. -/
def backlog (m : Manager) : List Nat :=
  m.pipelines.flatMap fun p => List.replicate p.inbox.length p.id

theorem deliver_eq_after (m : Manager) (now : Nat) :
    m.deliver now = m.after (m.backlog.map fun id => .receive id now) := by
  have delivered : m.deliver now = m.mapPipelines fun p => p.receiveAll now := rfl
  rw [after_receives, delivered]
  apply mapPipelines_congr
  intro p mem
  refine (Pipeline.iterate_receive ?_).symm
  rw [backlog, List.count_flatMap]
  have own := List.single_le_sum (fun _ _ => Nat.zero_le _) _
    (List.mem_map_of_mem (f := fun q : Pipeline =>
      (List.replicate q.inbox.length q.id).count p.id) mem)
  rw [List.count_replicate_self] at own
  exact own

private theorem foldl_enter_eq_after (m : Manager) (events : List Event) :
    events.foldl (fun m e => m.enter e.pipeline) m =
      m.after (events.map fun e => .enter e.pipeline) := by
  rw [after, List.foldl_map]
  rfl

end Manager

/-! ### Acts that begin nothing -/

def Act.begins : Act → Bool
  | .begin _ _ _ => true
  | _ => false

def Move.begins : Move → Bool
  | .begin _ _ _ => true
  | _ => false

namespace Manager

variable {m : Manager}

private theorem attemptIn_of_idle {v : Move} (idle : v.begins = false) (m : Manager) :
    m.attemptIn v = [] := by
  cases v with
  | begin id run now => cases idle
  | _ => rfl

private theorem moves_idle {a : Act} (idle : a.begins = false) (m : Manager) :
    ∀ v ∈ m.moves a, v.begins = false := by
  intro v mem
  cases a with
  | begin id run now => cases idle
  | visible document =>
    simp only [moves] at mem
    split at mem
    · rw [List.mem_singleton.1 mem]
      rfl
    · cases mem
  | close document =>
    rcases List.mem_cons.1 mem with rfl | last
    · rfl
    · rw [List.mem_singleton.1 last]
      rfl
  | reconfigure settings rank =>
    rcases List.mem_cons.1 mem with rfl | mem
    · rfl
    · obtain ⟨document, _, restarting⟩ := List.mem_flatMap.1 mem
      rcases List.mem_cons.1 restarting with rfl | last
      · rfl
      · rw [List.mem_singleton.1 last]
        split <;> rfl
  | poll budget =>
    rw [(List.mem_replicate.1 mem).2]
    rfl
  | _ =>
    rw [List.mem_singleton.1 mem]
    rfl

private theorem attempts_of_idle {history : List Act} (idle : ∀ a ∈ history, a.begins = false)
    (m : Manager) : m.attempts history = [] := by
  have quiet : ∀ v ∈ m.movesOf history, v.begins = false := by
    induction history generalizing m with
    | nil => exact fun v mem => absurd mem List.not_mem_nil
    | cons a history ih =>
      intro v mem
      rcases List.mem_append.1 mem with first | later
      · exact moves_idle (idle a List.mem_cons_self) m v first
      · exact ih (fun a mem => idle a (List.mem_cons_of_mem _ mem)) _ v later
  refine List.eq_nil_iff_forall_not_mem.2 ?_
  refine @log_forall _ _ (fun _ => True) _ _ _ trivial (fun _ _ _ _ => trivial) ?_
  intro n v mem _ attempt begun
  rw [attemptIn_of_idle (quiet v mem)] at begun
  cases begun

private theorem attempts_append (m : Manager) (before later : List Act) :
    m.attempts (before ++ later) = m.attempts before ++ (m.after before).attempts later := by
  rw [attempts, movesOf_append, log_append, ← after_eq_moves]
  rfl

end Manager

namespace Simulation

variable {σ : Type} {s s' : Simulation σ}

/-- The simulation went on as a history does, and began the same lint runs. -/
structure Follows (s s' : Simulation σ) (history : List Act) : Prop where
  manager : s'.manager = s.manager.after history
  attempts : s'.attempts = s.attempts ++ s.manager.attempts history

theorem Follows.refl (s : Simulation σ) : s.Follows s [] :=
  ⟨rfl, (List.append_nil _).symm⟩

theorem Follows.trans {s'' : Simulation σ} {before later : List Act} (first : s.Follows s' before)
    (second : s'.Follows s'' later) : s.Follows s'' (before ++ later) where
  manager := by rw [second.manager, first.manager, Manager.after_append]
  attempts := by
    rw [second.attempts, first.attempts, first.manager, Manager.attempts_append, List.append_assoc]

theorem Follows.registered {history : List Act} (follows : s.Follows s' history)
    (reg : s.manager.Registered) : s'.manager.Registered := by
  rw [follows.manager]
  exact reg.after history

/-- Nothing begins in a history without a beginning. -/
theorem follows_of_idle {history : List Act} (manager : s'.manager = s.manager.after history)
    (attempts : s'.attempts = s.attempts)
    (idle : ∀ a ∈ history, a.begins = false) : s.Follows s' history := by
  refine ⟨manager, ?_⟩
  rw [Manager.attempts_of_idle idle, attempts, List.append_nil]

private theorem fire_follows (run : Runner σ) (reg : s.manager.Registered) {p : Pipeline}
    (mem : p ∈ s.manager.pipelines) : ∃ history, s.Follows (s.fire run p) history := by
  unfold fire
  split
  · rename_i trigger due phase
    have found : s.manager.pipeline? p.id = some p := by
      obtain ⟨q, t, here, rfl⟩ := (Manager.mem_pipelines_iff reg.sorted).1 mem
      exact reg.pipeline?_eq here
    have begun : ∀ course, s.manager.attempts [.begin p.id course s.now] =
        [p.attempt trigger s.now] := by
      intro course
      simp only [Manager.attempts, Manager.movesOf, Manager.moves, Manager.log,
        Manager.attemptIn, found, phase, List.append_nil]
    unfold start
    dsimp only
    split
    · exact ⟨[.begin p.id default s.now], rfl, by rw [begun]⟩
    · rename_i command _
      exact ⟨[.begin p.id (run command s.runner).1 s.now], rfl, by rw [begun]⟩
  · refine ⟨[.finish p.id], follows_of_idle rfl rfl ?_⟩
    intro a mem
    rw [List.mem_singleton.1 mem]
    rfl

private theorem runUntil_follows (run : Runner σ) (target steps : Nat)
    (reg : s.manager.Registered) : ∃ history, s.Follows (s.runUntil run target steps) history := by
  induction steps generalizing s with
  | zero => exact ⟨[], .refl s⟩
  | succ steps ih =>
    rw [runUntil]
    split
    · exact ⟨[], .refl s⟩
    · rename_i due p next
      split
      · obtain ⟨mem, _⟩ := Manager.nextDue?_eq_some next
        obtain ⟨first, fired⟩ := fire_follows (s := { s with now := max s.now due }) run reg mem
        obtain ⟨rest, later⟩ := ih (fired.registered reg)
        have fired' : s.Follows (fire run { s with now := max s.now due } p) first :=
          ⟨fired.manager, fired.attempts⟩
        exact ⟨first ++ rest, fired'.trans later⟩
      · exact ⟨[], .refl s⟩

theorem deliver_follows (s : Simulation σ) :
    ∃ history, s.Follows (s.modify Manager.deliver) history := by
  refine ⟨s.manager.backlog.map fun id => .receive id s.now, ?_⟩
  refine follows_of_idle (Manager.deliver_eq_after _ s.now) rfl ?_
  intro a mem
  obtain ⟨_, _, rfl⟩ := List.mem_map.1 mem
  rfl

theorem act_follows (s : Simulation σ) {a : Act} (idle : a.begins = false) :
    ∃ history, s.Follows (s.modify fun m _ => m.act a) history := by
  refine ⟨[a], follows_of_idle rfl rfl ?_⟩
  intro b mem
  rw [List.mem_singleton.1 mem]
  exact idle

/-- An act of the host, after which all pipelines take in what they got. -/
private theorem act_deliver_follows (s : Simulation σ) {a : Act} (idle : a.begins = false) :
    ∃ history, s.Follows (s.modify fun m now => (m.act a).deliver now) history := by
  obtain ⟨first, acted⟩ := act_follows s idle
  obtain ⟨later, delivered⟩ := deliver_follows (s.modify fun m _ => m.act a)
  exact ⟨first ++ later, acted.trans delivered⟩

private theorem refill_follows (s : Simulation σ) :
    ∃ history, s.Follows (s.modify fun m now => m.refill now) history := by
  have entered : s.Follows
      (s.modify fun m _ => m.waiting.foldl (fun m e => m.enter e.pipeline) m)
      (s.manager.waiting.map fun e => .enter e.pipeline) := by
    refine follows_of_idle (Manager.foldl_enter_eq_after _ _) rfl ?_
    intro a mem
    obtain ⟨_, _, rfl⟩ := List.mem_map.1 mem
    rfl
  obtain ⟨later, delivered⟩ := deliver_follows
    (s.modify fun m _ => m.waiting.foldl (fun m e => m.enter e.pipeline) m)
  exact ⟨_, entered.trans delivered⟩

private theorem sleep_follows (run : Runner σ) (reg : s.manager.Registered) (length : Nat) :
    ∃ history, s.Follows (s.sleep run length) history := by
  obtain ⟨first, refilled⟩ := refill_follows s
  obtain ⟨later, passed⟩ := runUntil_follows run (s.now + length)
    (s.modify fun m now => m.refill now).stepBound (refilled.registered reg)
  have whole := refilled.trans passed
  exact ⟨first ++ later, whole.manager, whole.attempts⟩

private theorem perform_follows (run : Runner σ) (reg : s.manager.Registered)
    (operation : Operation) : ∃ history, s.Follows (s.perform run operation) history := by
  cases operation with
  | visible document => exact act_deliver_follows s (a := .visible document) rfl
  | reconfigure settings rank => exact act_deliver_follows s (a := .reconfigure settings rank) rfl
  | close document => exact act_follows s (a := .close document) rfl
  | setRoots roots => exact act_follows s (a := .setRoots roots) rfl
  | poll budget => exact act_follows s (a := .poll budget) rfl
  | takeChanges => exact act_follows s (a := .takeChanges) rfl
  | shutdown => exact act_follows s (a := .shutdown) rfl
  | sleep length => exact sleep_follows run reg length

/-- Every simulation is a history, with the same lint runs. -/
theorem performAll_follows (run : Runner σ) (reg : s.manager.Registered)
    (operations : List Operation) : ∃ history, s.Follows (s.performAll run operations) history := by
  induction operations generalizing s with
  | nil => exact ⟨[], .refl s⟩
  | cons operation rest ih =>
    obtain ⟨first, performed⟩ := perform_follows run reg operation
    obtain ⟨later, followed⟩ := ih (performed.registered reg)
    exact ⟨first ++ later, performed.trans followed⟩

end Simulation

end ModBench
