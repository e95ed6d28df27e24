import Mathlib.Data.List.Basic
import ModBench.Proofs.Lint.Lane

/-!
No stale results.  Whatever happens between its opening and its closing, and however often it is
started over, the results of a document are applied in the order of the triggers that they were made
for.
-/

set_option autoImplicit false
set_option relaxedAutoImplicit false

namespace ModBench

/-- One result comes from an older pipeline than the other, or from an earlier run of the same. -/
def Event.Precedes (e e' : Event) : Prop :=
  e.pipeline < e'.pipeline ∨ e.pipeline = e'.pipeline ∧ e.generation < e'.generation

/-- The trigger that a pipeline is at work for. -/
def Phase.trigger? : Phase → Option Trigger
  | .debouncing trigger _ => some trigger
  | .running trigger _ _ => some trigger
  | _ => none

namespace Pipeline

/-- The triggers that the pipeline is at work for or has not taken in, oldest first. -/
def pending (p : Pipeline) : List Trigger :=
  p.phase.trigger?.toList ++ p.inbox

/-- The first run whose result the pipeline has not sent and may still send. -/
def upcoming (p : Pipeline) : Nat :=
  match p.phase with
  | .running _ _ _ => p.generation
  | _ => p.generation + 1

private theorem pending_post (p : Pipeline) (trigger : Trigger) :
    (p.post trigger).pending = p.pending ++ [trigger] :=
  (List.append_assoc _ _ _).symm

private theorem pending_receive (p : Pipeline) (now : Nat) :
    (p.receive now).pending.Sublist p.pending := by
  unfold receive
  split
  · exact List.Sublist.refl _
  · exact List.Sublist.refl _
  · exact List.Sublist.refl _
  · rename_i trigger rest inbox _ _
    have taken : ({ p.openWindow now trigger with inbox := rest } : Pipeline).pending = p.inbox :=
      inbox.symm
    rw [taken]
    exact List.sublist_append_right _ _

private theorem pending_begin (p : Pipeline) (run : Run) (now : Nat) :
    (p.begin run now).pending = p.pending := by
  unfold begin
  split
  · rename_i phase
    simp only [pending, phase, Phase.trigger?]
  · rfl

private theorem pending_resume (p : Pipeline) : p.resume.pending = p.pending := by
  unfold resume
  split
  · rename_i phase
    simp only [pending, phase, Phase.trigger?]
  · rfl

theorem upcoming_receive (p : Pipeline) (now : Nat) : p.upcoming ≤ (p.receive now).upcoming := by
  unfold receive
  split
  · exact Nat.le_refl _
  · exact Nat.le_refl _
  · exact Nat.le_refl _
  · have opened : ∀ trigger rest,
        ({ p.openWindow now trigger with inbox := rest } : Pipeline).upcoming =
          p.generation + 1 := fun _ _ => rfl
    rw [opened]
    unfold upcoming
    split <;> omega

theorem upcoming_begin (p : Pipeline) (run : Run) (now : Nat) :
    (p.begin run now).upcoming = p.upcoming := by
  unfold begin
  split
  · rename_i phase
    simp only [upcoming, phase]
  · rfl

theorem upcoming_resume (p : Pipeline) : p.resume.upcoming = p.upcoming := by
  unfold resume
  split
  · rename_i phase
    simp only [upcoming, phase]
  · rfl

end Pipeline

namespace Lane

/-- The triggers of a lane that may still lead to a result, oldest first. -/
def outstanding (l : Lane) : List Trigger :=
  l.events.map Event.trigger ++ l.tracked.pipeline.pending

/-- The runs of a lane come in order: the applied one, those of the events, the upcoming one. -/
def Rising (l : Lane) : Prop :=
  (l.tracked.applied :: (l.events.map Event.generation ++
    [l.tracked.pipeline.upcoming])).Pairwise (· < ·)

variable {l l' : Lane} {given : List Trigger} {applied : List Event}

/-- No trigger gets ahead of another in a lane, and none comes from nowhere. -/
private theorem Step.outstanding (step : l.Step given applied l') :
    (applied.map Event.trigger ++ l'.outstanding).Sublist (l.outstanding ++ given) := by
  have keeps : ∀ {l : Lane} {f : Pipeline → Pipeline},
      (f l.tracked.pipeline).pending.Sublist l.tracked.pipeline.pending →
      ([] ++ (l.update f).outstanding).Sublist (l.outstanding ++ []) := by
    intro l f sub
    rw [List.nil_append, List.append_nil]
    exact (List.Sublist.refl _).append sub
  cases step with
  | stay => rw [List.append_nil]; exact List.Sublist.refl _
  | post _ trigger =>
    have more : (l.update fun p => p.post trigger).outstanding = l.outstanding ++ [trigger] := by
      simp only [Lane.outstanding, Lane.update, Pipeline.pending_post, List.append_assoc]
    rw [more]
    exact List.Sublist.refl _
  | receive _ now => exact keeps (Pipeline.pending_receive _ now)
  | begin _ run now =>
    refine keeps ?_
    rw [Pipeline.pending_begin]
  | finish phase free =>
    -- The trigger of the run passes into the event.
    rcases free with rfl | rfl <;>
      simp [Lane.outstanding, Lane.update, Pipeline.pending, phase, Phase.trigger?, Pipeline.event]
  | crash =>
    refine keeps ?_
    exact List.sublist_append_right _ _
  | resume =>
    refine keeps ?_
    rw [Pipeline.pending_resume]
  | apply => rw [List.append_nil]; exact List.Sublist.refl _
  | drop t e rest =>
    rw [List.append_nil]
    exact List.sublist_cons_self _ _

theorem rising_iff : l.Rising ↔
    (l.tracked.applied :: l.events.map Event.generation).Pairwise (· < ·) ∧
      ∀ g ∈ l.tracked.applied :: l.events.map Event.generation,
        g < l.tracked.pipeline.upcoming := by
  rw [Rising, ← List.cons_append, List.pairwise_append]
  simp

/-- A lane stays rising when its upcoming run can only get later. -/
private theorem Rising.update (rising : l.Rising) {f : Pipeline → Pipeline}
    (later : l.tracked.pipeline.upcoming ≤ (f l.tracked.pipeline).upcoming) :
    (l.update f).Rising := by
  obtain ⟨inner, below⟩ := rising_iff.1 rising
  exact rising_iff.2 ⟨inner, fun g mem => Nat.lt_of_lt_of_le (below g mem) later⟩

theorem Rising.front_lt (rising : l.Rising) {e : Event} {rest : List Event}
    (events : l.events = e :: rest) : l.tracked.applied < e.generation := by
  obtain ⟨inner, _⟩ := rising_iff.1 rising
  rw [events] at inner
  exact (List.pairwise_cons.1 inner).1 _ List.mem_cons_self

private theorem Step.rising (step : l.Step given applied l') (rising : l.Rising) : l'.Rising := by
  cases step with
  | stay => exact rising
  | post _ trigger => exact rising.update (Nat.le_refl _)
  | receive _ now => exact rising.update (Pipeline.upcoming_receive _ now)
  | begin _ run now => exact rising.update (Nat.le_of_eq (Pipeline.upcoming_begin _ run now).symm)
  | @finish _ trigger result ends after phase free =>
    have sent : l.tracked.pipeline.upcoming = l.tracked.pipeline.generation := by
      simp only [Pipeline.upcoming, phase]
    have ready : ({ l.tracked.pipeline with phase := after } : Pipeline).upcoming =
        l.tracked.pipeline.generation + 1 := by
      rcases free with rfl | rfl <;> rfl
    have through : (l.tracked.applied :: (l.events.map Event.generation ++
        [l.tracked.pipeline.generation])).Pairwise (· < ·) := sent ▸ rising
    obtain ⟨_, below⟩ := rising_iff.1 rising
    rw [sent] at below
    rw [rising_iff]
    simp only [Lane.update, ready, List.map_append, List.map_cons, List.map_nil]
    refine ⟨through, ?_⟩
    intro g mem
    rw [← List.cons_append, List.mem_append] at mem
    rcases mem with old | new
    · exact Nat.lt_succ_of_lt (below g old)
    · rw [List.mem_singleton.1 new]
      exact Nat.lt_succ_self _
  | crash =>
    refine rising.update ?_
    simp only [Pipeline.upcoming]
    split <;> omega
  | resume => exact rising.update (Nat.le_of_eq (Pipeline.upcoming_resume _).symm)
  | apply ids le => exact (List.pairwise_cons.1 rising).2
  | drop t e rest =>
    exact rising.sublist ((List.sublist_cons_self _ _).cons_cons _)

/-- Events are applied one at a time, from the front, and leave their run as the applied one. -/
theorem Step.applied_cases (step : l.Step given applied l') :
    l'.id = l.id ∧ (applied = [] ∧ l'.tracked.applied = l.tracked.applied ∨
      ∃ e, applied = [e] ∧ e.pipeline = l.id ∧ l'.tracked.applied = e.generation ∧
        l.events = e :: l'.events) := by
  cases step with
  | apply ids le => exact ⟨rfl, Or.inr ⟨_, rfl, ids.symm, rfl, rfl⟩⟩
  | receive _ now =>
    exact ⟨(Pipeline.receive_keeps _ now).1, Or.inl ⟨rfl, rfl⟩⟩
  | begin _ run now =>
    exact ⟨(Pipeline.begin_keeps _ run now).1, Or.inl ⟨rfl, rfl⟩⟩
  | resume =>
    exact ⟨(Pipeline.resume_keeps _).1, Or.inl ⟨rfl, rfl⟩⟩
  | _ => exact ⟨rfl, Or.inl ⟨rfl, rfl⟩⟩

end Lane

namespace Manager

theorem request_counts (m : Manager) (document : Path) :
    m.lastId ≤ (m.request document).lastId ∧ (m.request document).requests = m.requests + 1 := by
  unfold request
  dsimp only
  split
  · exact ⟨Nat.le_succ _, rfl⟩
  · split
    · exact ⟨Nat.le_refl _, rfl⟩
    · exact ⟨Nat.le_succ _, rfl⟩

/-- Numbers of pipelines and of requests only go up. -/
theorem move_counts (m : Manager) (v : Move) :
    m.lastId ≤ (m.move v).lastId ∧ m.requests ≤ (m.move v).requests := by
  cases v with
  | request document =>
    obtain ⟨last, requests⟩ := request_counts m document
    exact ⟨last, Nat.le_of_lt (requests ▸ Nat.lt_succ_self _)⟩
  | untrack document =>
    simp only [move, untrack]
    split <;> exact ⟨Nat.le_refl _, Nat.le_refl _⟩
  | next =>
    simp only [move, next]
    split
    · exact ⟨Nat.le_refl _, Nat.le_refl _⟩
    · rename_i e rest _
      obtain ⟨_, _, last, requests⟩ := handle_queues { m with queue := rest } e
      exact ⟨Nat.le_of_eq last.symm, Nat.le_of_eq requests.symm⟩
  | finish id =>
    simp only [move, finish]
    split
    · exact ⟨Nat.le_refl _, Nat.le_refl _⟩
    · split
      · simp only [send]
        split <;> exact ⟨Nat.le_refl _, Nat.le_refl _⟩
      · exact ⟨Nat.le_refl _, Nat.le_refl _⟩
      · exact ⟨Nat.le_refl _, Nat.le_refl _⟩
  | enter id =>
    simp only [move, enter]
    split
    · exact ⟨Nat.le_refl _, Nat.le_refl _⟩
    · split <;> exact ⟨Nat.le_refl _, Nat.le_refl _⟩
  | _ => exact ⟨Nat.le_refl _, Nat.le_refl _⟩

/-- A move gives a document at most one trigger, with the number of the request that it is. -/
theorem triggersFor_cases (p : Path) (m : Manager) (v : Move) : triggersFor p m v = [] ∨
    ∃ a, triggersFor p m v = [a] ∧ a.number = m.requests + 1 ∧
      (m.move v).requests = m.requests + 1 := by
  cases v with
  | request document =>
    cases same : p.same document with
    | true =>
      exact Or.inr ⟨m.nextTrigger document, triggersFor_request_of_same m same, rfl,
        (request_counts m document).2⟩
    | false => exact Or.inl (triggersFor_request_of_not_same m same)
  | _ => exact Or.inl rfl

/-- The triggers of a document that may still lead to a result. -/
def outstanding (m : Manager) (p : Path) : List Trigger :=
  ((m.lane? p).map Lane.outstanding).getD []

/-- The register is in order, and so are the runs of every lane. -/
structure Orderly (m : Manager) : Prop where
  registered : m.Registered
  rising : ∀ {p l}, m.lane? p = some l → l.Rising

theorem orderly_new (settings : LintSettings) : (new settings).Orderly :=
  ⟨registered_new settings, fun h => by cases h⟩

theorem Orderly.move {m : Manager} (orderly : m.Orderly) (v : Move) : (m.move v).Orderly := by
  refine ⟨orderly.registered.move v, ?_⟩
  intro p l lane
  have turn := turn_of_move orderly.registered v p
  rw [lane] at turn
  generalize triggersFor p m v = new at turn
  generalize appliedFor p m v = done at turn
  cases turn with
  | fresh trigger same dead =>
    exact Lane.rising_iff.2 ⟨List.pairwise_singleton _ _, by simp [newcomer, Pipeline.upcoming]⟩
  | step here step => exact step.rising (orderly.rising here)

/-- What holds of a document at any time, with its triggers and the events applied so far. -/
structure InOrder (p : Path) (m : Manager) (given : List Trigger)
    (applied : List Event) : Prop where
  orderly : m.Orderly
  numbered : given.Pairwise fun a b => a.number < b.number
  issued : ∀ a ∈ given, a.number ≤ m.requests
  served : (applied.map Event.trigger ++ m.outstanding p).Sublist given
  known : ∀ e ∈ applied, e.pipeline ≤ m.lastId
  past : ∀ {l}, m.lane? p = some l → ∀ e ∈ applied,
    e.pipeline < l.id ∨ e.pipeline = l.id ∧ e.generation ≤ l.tracked.applied
  ranked : applied.Pairwise Event.Precedes

/-- For a document without a pipeline nothing is open. -/
theorem Orderly.inOrder {m : Manager} (orderly : m.Orderly) {p : Path}
    (absent : m.registered? p = none) : InOrder p m [] [] where
  orderly := orderly
  numbered := List.Pairwise.nil
  issued _ mem := by cases mem
  served := by
    rw [outstanding, lane?, absent]
    exact List.Sublist.refl _
  known _ mem := by cases mem
  past _ _ mem := by cases mem
  ranked := List.Pairwise.nil

namespace InOrder

variable {p : Path} {m : Manager} {given : List Trigger} {applied : List Event}

private theorem numbered_move (o : InOrder p m given applied) (v : Move) :
    (given ++ triggersFor p m v).Pairwise (fun a b => a.number < b.number) ∧
      ∀ a ∈ given ++ triggersFor p m v, a.number ≤ (m.move v).requests := by
  rcases triggersFor_cases p m v with none | ⟨a, one, number, requests⟩
  · rw [none, List.append_nil]
    exact ⟨o.numbered, fun a mem => Nat.le_trans (o.issued a mem) (move_counts m v).2⟩
  · rw [one, List.pairwise_append, requests]
    refine ⟨⟨o.numbered, List.pairwise_singleton _ _, ?_⟩, ?_⟩
    · intro b mem c last
      rw [List.mem_singleton.1 last, number]
      exact Nat.lt_succ_of_le (o.issued b mem)
    · intro b mem
      rcases List.mem_append.1 mem with old | last
      · exact Nat.le_succ_of_le (o.issued b old)
      · exact Nat.le_of_eq (List.mem_singleton.1 last ▸ number)

variable {new : List Trigger} {done : List Event} {after : Option Lane}

private theorem served_turn (o : InOrder p m given applied) (turn : m.Turn p new done after) :
    ((applied ++ done).map Event.trigger ++ (after.map Lane.outstanding).getD []).Sublist
      (given ++ new) := by
  have served : (applied.map Event.trigger).Sublist given :=
    (List.sublist_append_left _ _).trans o.served
  cases turn with
  | gone => simpa using served
  | fresh trigger same dead =>
    have one : ∀ document,
        (Lane.mk (m.newcomer document trigger) []).outstanding = [trigger] := fun _ => rfl
    rw [List.append_nil, Option.map_some, Option.getD_some, one]
    exact served.append (List.Sublist.refl _)
  | @step l l' new done here step =>
    have before : (applied.map Event.trigger ++ l.outstanding).Sublist given := by
      have served := o.served
      rwa [outstanding, here] at served
    rw [List.map_append, List.append_assoc, Option.map_some, Option.getD_some]
    calc (applied.map Event.trigger ++ (done.map Event.trigger ++ l'.outstanding)).Sublist
          (applied.map Event.trigger ++ (l.outstanding ++ new)) :=
        (List.Sublist.refl _).append step.outstanding
      _ = applied.map Event.trigger ++ l.outstanding ++ new := (List.append_assoc _ _ _).symm
      List.Sublist _ (given ++ new) := before.append (List.Sublist.refl _)

/-- What a turn applies comes from the registered pipeline, from a later run than all before. -/
theorem done_turn (o : InOrder p m given applied) (turn : m.Turn p new done after) : done = [] ∨
    ∃ l e, m.lane? p = some l ∧ done = [e] ∧ e.pipeline = l.id ∧
      l.tracked.applied < e.generation := by
  cases turn with
  | gone => exact Or.inl rfl
  | fresh trigger same dead => exact Or.inl rfl
  | step here step =>
    obtain ⟨_, ⟨none, _⟩ | ⟨e, one, named, _, events⟩⟩ := step.applied_cases
    · exact Or.inl none
    · exact Or.inr ⟨_, e, here, one, named, (o.orderly.rising here).front_lt events⟩

private theorem ranked_turn (o : InOrder p m given applied) (turn : m.Turn p new done after) :
    (applied ++ done).Pairwise Event.Precedes := by
  rcases o.done_turn turn with rfl | ⟨l, e, here, rfl, named, later⟩
  · rw [List.append_nil]
    exact o.ranked
  · rw [List.pairwise_append]
    refine ⟨o.ranked, List.pairwise_singleton _ _, ?_⟩
    intro d mem e' last
    rw [List.mem_singleton.1 last, Event.Precedes, named]
    rcases o.past here d mem with older | ⟨same, le⟩
    · exact Or.inl older
    · exact Or.inr ⟨same, Nat.lt_of_le_of_lt le later⟩

private theorem past_turn (o : InOrder p m given applied) (turn : m.Turn p new done after)
    {l : Lane} (lane : after = some l) : ∀ e ∈ applied ++ done,
      e.pipeline < l.id ∨ e.pipeline = l.id ∧ e.generation ≤ l.tracked.applied := by
  cases turn with
  | gone => cases lane
  | fresh trigger same dead =>
    obtain rfl := Option.some.inj lane
    intro e mem
    rw [List.append_nil] at mem
    exact Or.inl (Nat.lt_succ_of_le (o.known e mem))
  | @step l₀ l' _ _ here step =>
    obtain rfl := Option.some.inj lane
    intro e mem
    obtain ⟨ids, ⟨rfl, applied_eq⟩ | ⟨d, rfl, named, applied_eq, events⟩⟩ := step.applied_cases
    · rw [List.append_nil] at mem
      rw [ids, applied_eq]
      exact o.past here e mem
    · rw [ids, applied_eq]
      rcases List.mem_append.1 mem with old | last
      · refine (o.past here e old).imp_right fun ⟨same, le⟩ => ⟨same, ?_⟩
        exact Nat.le_of_lt (Nat.lt_of_le_of_lt le ((o.orderly.rising here).front_lt events))
      · obtain rfl := List.mem_singleton.1 last
        exact Or.inr ⟨named, Nat.le_refl _⟩

private theorem known_turn (o : InOrder p m given applied) (turn : m.Turn p new done after) :
    ∀ e ∈ applied ++ done, e.pipeline ≤ m.lastId := by
  intro e mem
  rcases List.mem_append.1 mem with old | new
  · exact o.known e old
  · rcases o.done_turn turn with rfl | ⟨l, d, here, rfl, named, _⟩
    · cases new
    · rw [List.mem_singleton.1 new, named]
      exact o.orderly.registered.id_le (registered_of_lane here).1

private theorem move (o : InOrder p m given applied) (v : Move) :
    InOrder p (m.move v) (given ++ triggersFor p m v) (applied ++ appliedFor p m v) := by
  have turn := turn_of_move o.orderly.registered v p
  exact {
    orderly := o.orderly.move v
    numbered := (o.numbered_move v).1
    issued := (o.numbered_move v).2
    served := o.served_turn turn
    known := fun e mem => Nat.le_trans (o.known_turn turn e mem) (move_counts m v).1
    past := o.past_turn turn
    ranked := o.ranked_turn turn }

end InOrder

theorem InOrder.after {p : Path} {m : Manager} (start : InOrder p m [] []) (history : List Act) :
    InOrder p (m.after history) (m.triggers p history) (m.applied p history) :=
  log_induction start (fun _ v _ _ o => o.move v) history

/-- What becomes of an event of a document: it is applied exactly when its pipeline is the
registered one. -/
def Judged (p : Path) (n : Manager) (e : Event) : Prop :=
  (∀ t, n.registered? p = some t → t.pipeline.id = e.pipeline →
    t.applied < e.generation ∧ n.accepts e = true) ∧
  ((∀ t, n.registered? p = some t → t.pipeline.id ≠ e.pipeline) → n.handle e = n)

private theorem Orderly.judged {m : Manager} (orderly : m.Orderly) {e : Event} {rest : List Event}
    (queued : m.queue = e :: rest) {p : Path} (same : p.same e.document = true) :
    Judged p { m with queue := rest } e := by
  have entry : { m with queue := rest }.registered? e.document = m.registered? p :=
    (registered?_congr same m).symm
  refine ⟨?_, ?_⟩
  · intro t there ids
    have here : m.registered? p = some t := there
    have lane : m.lane? p = some ⟨t, e :: m.next.eventsOf t.pipeline.id⟩ := by
      rw [lane?_of_registered here, eventsOf_next queued, if_pos ids.symm]
    have newer := (orderly.rising lane).front_lt rfl
    exact ⟨newer, accepts_iff.2 ⟨t, entry.trans here, ids, Nat.le_of_lt newer⟩⟩
  · intro other
    refine if_neg ?_
    intro accepted
    obtain ⟨t, here, ids, _⟩ := accepts_iff.1 accepted
    exact other t (entry.symm.trans here) ids

/-- The results of a document are applied in the order of its triggers, each for another trigger,
and in the order of pipelines and runs.  A result is applied exactly when its pipeline is the
registered one; it is then newer than what was applied from that pipeline before.  Any other result
changes nothing. -/
theorem results_in_trigger_order (settings : LintSettings) (p : Path) (history : List Act) :
    (((new settings).applied p history).map Event.trigger).Sublist
        ((new settings).triggers p history) ∧
      ((new settings).applied p history).Pairwise
        (fun e e' => e.trigger.number < e'.trigger.number) ∧
      ((new settings).applied p history).Pairwise Event.Precedes ∧
      ∀ h ∈ (new settings).handled history, p.same h.2.document = true → Judged p h.1 h.2 := by
  have o := ((orderly_new settings).inOrder (p := p) rfl).after history
  have served := (List.sublist_append_left _ _).trans o.served
  refine ⟨served, ?_, o.ranked, ?_⟩
  · exact (List.pairwise_map (f := Event.trigger) (R := fun a b => a.number < b.number)).1
      (o.numbered.sublist served)
  · refine log_forall (orderly_new settings) (fun _ v _ orderly => orderly.move v) ?_
    intro m v _ orderly h mem same
    unfold handledIn at mem
    split at mem
    · split at mem
      · cases mem
      · rename_i e rest queued
        obtain rfl := List.mem_singleton.1 mem
        exact orderly.judged queued same
    · cases mem

end Manager

end ModBench
