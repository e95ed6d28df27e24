import Mathlib.Data.List.Basic
import ModBench.Proofs.Lint.Delivery
import ModBench.Proofs.Lint.Outcome

/-!
Owed lint runs.  A pipeline owes a lint run for the newest trigger that it got.  Until the run
begins it goes on to owe it, whatever runs are given up or fail meanwhile, and it never needs more
than its own steps and some room in the queue to begin it.
-/

set_option autoImplicit false
set_option relaxedAutoImplicit false

namespace ModBench

/-- Acts of the pipelines' tasks, and the handling of results. -/
def Act.Continues : Act → Prop
  | .poll _ | .receive _ _ | .begin _ _ _ | .finish _ | .enter _ => True
  | _ => False

namespace Pipeline

/-- The pipeline is up, and this trigger is the newest that it got; no lint run began for it. -/
def Owes (p : Pipeline) (trigger : Trigger) : Prop :=
  p.isAlive = true ∧ ((∃ older, p.inbox = older ++ [trigger]) ∨
    p.inbox = [] ∧ ∃ due, p.phase = .debouncing trigger due)

namespace Change

variable {p p' : Pipeline} {n : Notes} {trigger : Trigger}

private theorem owes_of_trigger (change : p.Change n p') (given : n.triggers = [trigger]) :
    p'.Owes trigger := by
  cases change with
  | post new alive =>
    obtain rfl : new = trigger := List.singleton_inj.1 given
    exact ⟨alive, Or.inl ⟨p.inbox, rfl⟩⟩
  | _ => cases given

private theorem owes (change : p.Change n p') (owes : p.Owes trigger) (newest : n.triggers = [])
    (up : n.crashed = []) : p'.Owes trigger ∨ ∃ f ∈ n.begun, f.trigger = trigger := by
  obtain ⟨alive, place⟩ := owes
  -- While a run is under way the trigger is still in the inbox.
  have inside : ∀ {other finish ends}, p.phase = .running other finish ends →
      ∃ older, p.inbox = older ++ [trigger] := by
    intro other finish ends running
    rcases place with inbox | ⟨_, due, phase⟩
    · exact inbox
    · rw [running] at phase
      cases phase
  cases change with
  | stay => exact Or.inl ⟨alive, place⟩
  | post new _ => cases newest
  | receive now =>
    refine Or.inl ?_
    unfold Pipeline.receive
    split
    · exact ⟨alive, place⟩
    · exact ⟨alive, place⟩
    · exact ⟨alive, place⟩
    · rename_i first rest inbox _ _
      refine ⟨rfl, ?_⟩
      rcases place with ⟨older, eq⟩ | ⟨empty, _⟩
      · rw [inbox] at eq
        cases older with
        | nil =>
          obtain ⟨rfl, rfl⟩ := List.cons.inj eq
          exact Or.inr ⟨rfl, _, rfl⟩
        | cons _ older =>
          obtain ⟨_, eq⟩ := List.cons.inj eq
          exact Or.inl ⟨older, eq⟩
      · rw [inbox] at empty
        cases empty
  | @begin other due run now phase =>
    rcases place with ⟨older, eq⟩ | ⟨_, due', phase'⟩
    · refine Or.inl ⟨by simp [isAlive, Pipeline.begin, phase], Or.inl ⟨older, ?_⟩⟩
      simpa [Pipeline.begin, phase] using eq
    · rw [phase] at phase'
      cases phase'
      exact Or.inr ⟨_, List.mem_singleton_self _, rfl⟩
  | send phase => exact Or.inl ⟨rfl, Or.inl (inside phase)⟩
  | block phase => exact Or.inl ⟨rfl, Or.inl (inside phase)⟩
  | crash phase => cases up
  | resume named =>
    refine Or.inl ?_
    unfold Pipeline.resume
    split
    · rename_i blocked
      rcases place with inbox | ⟨_, due, phase⟩
      · exact ⟨rfl, Or.inl inbox⟩
      · rw [blocked] at phase
        cases phase
    · exact ⟨alive, place⟩

end Change

/-- Once it takes in what it got, a pipeline has a debounce window open for the trigger that it owes
a lint run. -/
private theorem Owes.receiveAll {p : Pipeline} {trigger : Trigger} (owes : p.Owes trigger)
    (free : p.phase ≠ .blocked) (now : Nat) :
    ∃ due, (p.receiveAll now).phase = .debouncing trigger due := by
  obtain ⟨alive, ⟨older, inbox⟩ | ⟨empty, due, phase⟩⟩ := owes
  · have up : p.phase ≠ .ended := by
      intro ended
      simp [isAlive, ended] at alive
    rw [receiveAll_of_inbox_append up free inbox]
    exact ⟨_, rfl⟩
  · rw [receiveAll_of_inbox empty]
    exact ⟨due, phase⟩

end Pipeline

namespace Manager

variable {m : Manager} {p : Path} {t : Tracked} {trigger : Trigger}

theorem begun_append (m : Manager) (before later : List Act) :
    m.begun (before ++ later) = m.begun before ++ (m.after before).begun later := by
  rw [begun, movesOf_append, log_append, ← after_eq_moves]
  rfl

theorem Attended.after (attended : m.Attended) (history : List Act) : (m.after history).Attended :=
  after_induction attended (fun _ v attended => attended.move v) history

/-- A lint run of the document was begun by this pipeline for this trigger. -/
def BegunFor (p : Path) (id : Nat) (trigger : Trigger) (begun : List Flight) : Prop :=
  ∃ f ∈ begun, f.pipeline = id ∧ f.trigger = trigger ∧ p.same f.document = true

/-- A request leaves its document with a pipeline that owes it a lint run. -/
private theorem Registered.owes_request (reg : m.Registered) (document : Path) :
    ∃ t, (m.request document).registered? document = some t ∧
      t.pipeline.Owes (m.nextTrigger document) := by
  have turnover := turnover_request (p := document) reg document
  have triggers := triggersFor_request_of_same m (Path.same_refl document)
  generalize m.registered? document = before at turnover
  generalize (m.request document).registered? document = after at turnover
  cases turnover with
  | absent none =>
    rw [triggers] at none
    cases none
  | closed stopped => cases stopped
  | @fresh _ _ trigger _ _ given =>
    rw [triggers] at given
    obtain rfl := List.singleton_inj.1 given
    exact ⟨_, rfl, rfl, Or.inl ⟨[], rfl⟩⟩
  | @change _ t' change => exact ⟨t', rfl, change.owes_of_trigger triggers⟩

/-- A lint run that is noted for a registered pipeline is one of its document. -/
private theorem Registered.begunFor (reg : m.Registered) (here : m.registered? p = some t)
    {v : Move} {f : Flight} (noted : f ∈ (m.notes v p t.pipeline.id).begun)
    (same : f.trigger = trigger) : BegunFor p t.pipeline.id trigger (m.begunIn v) := by
  obtain ⟨begins, ids⟩ := List.mem_filter.1 noted
  have ids : f.pipeline = t.pipeline.id := by simpa using ids
  refine ⟨f, begins, ids, same, ?_⟩
  obtain ⟨id, _, _, q, _, _, _, found, _, rfl⟩ := mem_begunIn begins
  have named : q.id = id := by simpa using List.find?_some found
  have same_id : id = t.pipeline.id := named.symm.trans ids
  rw [same_id, reg.pipeline?_eq here] at found
  obtain rfl := Option.some.inj found
  exact reg.document here

/-- A lint run that is owed is begun at some time, or still owed; only a newer trigger, a closing or
a crash of the pipeline changes that. -/
private theorem Registered.owes_run (reg : m.Registered) (here : m.registered? p = some t)
    (owes : t.pipeline.Owes trigger) {moves : List Move}
    (newest : m.log (triggersFor p) moves = [])
    (open_still : t.pipeline.id ∉ m.log closedIn moves)
    (up : ∀ f ∈ m.log crashedIn moves, f.pipeline ≠ t.pipeline.id) :
    (∃ t', (moves.foldl Manager.move m).registered? p = some t' ∧
      t'.pipeline.id = t.pipeline.id ∧ t'.pipeline.Owes trigger) ∨
      BegunFor p t.pipeline.id trigger (m.log begunIn moves) := by
  induction moves generalizing m t with
  | nil => exact Or.inl ⟨t, here, rfl, owes⟩
  | cons v rest ih =>
    simp only [log, List.append_eq_nil_iff, List.mem_append, not_or] at newest open_still up
    have none_crashed : (m.notes v p t.pipeline.id).crashed = [] :=
      List.filter_eq_nil_iff.2 fun f mem => by simpa using up f (Or.inl mem)
    obtain ⟨t', there, change⟩ := reg.change_of_alive here owes.1 open_still.1
    have ids : t'.pipeline.id = t.pipeline.id := change.keeps.1
    rcases change.owes owes newest.1 none_crashed with owes' | ⟨f, noted, same⟩
    · have later := ih (reg.move v) there owes' newest.2 (ids ▸ open_still.2)
        fun f mem => ids ▸ up f (Or.inr mem)
      rw [ids] at later
      rcases later with still | ⟨f, begins, rest⟩
      · exact Or.inl still
      · exact Or.inr ⟨f, List.mem_append_right _ begins, rest⟩
    · obtain ⟨f, begins, rest⟩ := reg.begunFor here noted same
      exact Or.inr ⟨f, List.mem_append_left _ begins, rest⟩

/-! ### Going on -/

/-- A blocked pipeline goes on as soon as a result was handled and its own enters the queue. -/
private theorem Attended.unblock (attended : m.Attended) (small : m.queue.length ≤ queueCapacity)
    (here : m.registered? p = some t) (phase : t.pipeline.phase = .blocked) :
    ∃ u, (m.after [.poll 1, .enter t.pipeline.id]).registered? p = some u ∧
      u.pipeline = { t.pipeline with phase := .idle } := by
  have kept := (kept_poll m 1).pipelines p
  rw [here] at kept
  obtain ⟨t', there, same⟩ := Option.map_eq_some_iff.1 kept
  have attended' : (m.poll 1).2.Attended := attended.after [.poll 1]
  have blocked : t'.pipeline.phase = .blocked := by rw [same, phase]
  obtain ⟨e, waits, ids⟩ := attended'.waits there blocked
  have room : (m.poll 1).2.queue.length < queueCapacity := by
    have size : 0 < queueCapacity := by decide
    rw [poll_queue, List.length_drop]
    omega
  obtain ⟨d, found⟩ : ∃ d, (m.poll 1).2.waiting.find? (fun e => e.pipeline == t.pipeline.id) =
      some d := by
    refine Option.isSome_iff_exists.1 (List.find?_isSome.2 ⟨e, waits, ?_⟩)
    rw [ids, same]
    exact beq_self_eq_true _
  refine ⟨{ t' with pipeline := t'.pipeline.resume }, ?_, ?_⟩
  · have entered : (m.after [.poll 1, .enter t.pipeline.id]).registered? p =
        ((m.poll 1).2.updateById t'.pipeline.id Pipeline.resume).registered? p := by
      simp only [Manager.after, act, List.foldl_cons, List.foldl_nil, enter, found, room, if_true,
        same]
      rfl
    rw [entered]
    exact registered?_updateById_of_id there _
  · simp only [Pipeline.resume, blocked]
    rw [same]

/-- A lint run that is owed can begin. -/
private theorem Attended.exists_begunFor (attended : m.Attended)
    (small : m.queue.length ≤ queueCapacity) (here : m.registered? p = some t)
    (owes : t.pipeline.Owes trigger) :
    ∃ later, (∀ a ∈ later, a.Continues) ∧
      BegunFor p t.pipeline.id trigger (m.begun later) := by
  -- First the pipeline gets free, then it takes in what it got, then its window runs out.
  obtain ⟨first, tasks, u, there, ids, owes', free⟩ : ∃ first, (∀ a ∈ first, a.Continues) ∧
      ∃ u, (m.after first).registered? p = some u ∧ u.pipeline.id = t.pipeline.id ∧
        u.pipeline.Owes trigger ∧ u.pipeline.phase ≠ .blocked := by
    by_cases blocked : t.pipeline.phase = .blocked
    · obtain ⟨u, there, same⟩ := attended.unblock small here blocked
      refine ⟨[.poll 1, .enter t.pipeline.id], by simp [Act.Continues], u, there, ?_, ?_, ?_⟩
      · rw [same]
      · rw [same]
        rcases owes.2 with inbox | ⟨_, due, phase⟩
        · exact ⟨rfl, Or.inl inbox⟩
        · rw [blocked] at phase
          cases phase
      · rw [same]
        exact fun h => by cases h
    · exact ⟨[], nofun, t, here, rfl, owes, blocked⟩
  have reg := attended.registered.after first
  obtain ⟨due, phase⟩ := owes'.receiveAll free 0
  have delivered : ((m.after first).deliver 0).registered? p =
      some { u with pipeline := u.pipeline.receiveAll 0 } := by
    rw [registered?_deliver, there]
    rfl
  have found := (reg.deliver 0).pipeline?_eq delivered
  have same_id : (u.pipeline.receiveAll 0).id = t.pipeline.id :=
    (u.pipeline.receiveAll_keeps 0).1.trans ids
  refine ⟨first ++ ((m.after first).backlog.map fun id => .receive id 0) ++
    [.begin t.pipeline.id default 0], ?_, ?_⟩
  · simp only [List.mem_append, List.mem_map, List.mem_singleton]
    rintro a ((mem | ⟨id, _, rfl⟩) | rfl)
    · exact tasks a mem
    · trivial
    · trivial
  · rw [begun_append, after_append, ← deliver_eq_after]
    have begins : ((m.after first).deliver 0).begun [.begin t.pipeline.id default 0] =
        [{ u.pipeline.receiveAll 0 with
          generation := (u.pipeline.receiveAll 0).generation + 1 }.flight trigger] := by
      rw [← same_id]
      simp only [begun, movesOf, moves, log, begunIn, found, phase, List.append_nil]
    refine ⟨_, List.mem_append_right _ (begins ▸ List.mem_singleton_self _), same_id, rfl, ?_⟩
    exact (reg.deliver 0).document delivered

/-- A request for a document is never lost: unless the document gets a newer one, or its pipeline is
closed or crashes, its lint run has begun at any later time or can still begin. -/
def Relints (m : Manager) (document : Path) : Prop :=
  ∃ t, (m.request document).registered? document = some t ∧ ∀ later,
    (m.request document).triggers document later = [] →
    t.pipeline.id ∉ (m.request document).closed later →
    (∀ f ∈ (m.request document).crashed later, f.pipeline ≠ t.pipeline.id) →
    ∃ rest, (∀ a ∈ rest, a.Continues) ∧
      BegunFor document t.pipeline.id (m.nextTrigger document)
        ((m.request document).begun (later ++ rest))

theorem relints (attended : m.Attended) (small : m.queue.length ≤ queueCapacity)
    (document : Path) : m.Relints document := by
  obtain ⟨t, here, owes⟩ := attended.registered.owes_request document
  refine ⟨t, here, fun later newest open_still up => ?_⟩
  have requested : (m.request document).Attended := attended.move (.request document)
  have small' : (m.request document).queue.length ≤ queueCapacity := by
    rwa [(request_queues m document).1]
  have fate := requested.registered.owes_run here owes newest open_still up
  rcases fate with ⟨u, there, ids, owed⟩ | begun
  · rw [← after_eq_moves] at there
    obtain ⟨rest, tasks, f, begins, same, rest_of⟩ := (requested.after later).exists_begunFor
      (queue_length_le small' later) there owed
    refine ⟨rest, tasks, f, ?_, same.trans ids, rest_of⟩
    rw [begun_append]
    exact List.mem_append_right _ begins
  · refine ⟨[], nofun, ?_⟩
    rw [List.append_nil]
    exact begun

end Manager

end ModBench
