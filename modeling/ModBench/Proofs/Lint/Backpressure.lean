import Mathlib.Data.List.Nodup
import ModBench.Proofs.Lint.Calm
import ModBench.Proofs.Lint.Conservation
import ModBench.Proofs.Lint.Staleness

/-!
Back pressure.  A result that finds no room in the queue waits, and so long its pipeline is blocked:
it takes no trigger in and loses none.  Once the result is queued, the triggers that came meanwhile
open one debounce window for the newest of them.
-/

set_option autoImplicit false
set_option relaxedAutoImplicit false

namespace ModBench

/-- Of two results of one pipeline, the first is that of the earlier run. -/
def Event.InTurn (e d : Event) : Prop :=
  e.pipeline = d.pipeline → e.generation < d.generation

namespace Pipeline

/-- All these triggers came in since the pipeline last was at rest; no lint run began since. -/
inductive Gathers (p : Pipeline) (all : List Trigger) : Prop
  | rest : p.phase = .idle ∨ p.phase = .blocked → p.inbox = all → p.Gathers all
  | window {taken : List Trigger} {trigger : Trigger} {due : Nat} :
      p.phase = .debouncing trigger due → all = taken ++ trigger :: p.inbox → p.Gathers all

private theorem receive_phase_blocked_iff (p : Pipeline) (now : Nat) :
    (p.receive now).phase = .blocked ↔ p.phase = .blocked := by
  unfold receive
  split
  · exact Iff.rfl
  · exact Iff.rfl
  · exact Iff.rfl
  · rename_i free _
    have opened : p.phase ≠ .blocked := free
    simp [openWindow, opened]

private theorem resume_phase_ne_blocked (p : Pipeline) : p.resume.phase ≠ .blocked := by
  unfold resume
  split
  · intro phase
    cases phase
  · rename_i free
    exact free

namespace Change

variable {p p' : Pipeline} {n : Notes}

/-- A pipeline is blocked from when it sends a result that does not enter the queue until one
enters. -/
theorem phase_blocked_iff (change : p.Change n p') :
    p'.phase = .blocked ↔ (p.phase = .blocked ∨ n.sent ≠ []) ∧ n.entered = [] := by
  cases change with
  | stay => simp
  | post trigger alive => simp [Pipeline.post]
  | receive now => simp [receive_phase_blocked_iff]
  | begin run now phase => simp [Pipeline.begin, phase]
  | send phase => simp
  | block phase => simp
  | crash phase => simp [phase]
  | resume named => simp [resume_phase_ne_blocked]

/-- The result that is sent is that of the upcoming run, which is past then. -/
private theorem upcoming (change : p.Change n p') : p.upcoming ≤ p'.upcoming ∧
    ∀ e ∈ n.sent, e.generation = p.upcoming ∧ e.generation < p'.upcoming := by
  cases change with
  | stay => exact ⟨Nat.le_refl _, fun e mem => by cases mem⟩
  | post trigger alive => exact ⟨Nat.le_refl _, fun e mem => by cases mem⟩
  | receive now => exact ⟨upcoming_receive p now, fun e mem => by cases mem⟩
  | begin run now phase =>
    exact ⟨Nat.le_of_eq (upcoming_begin p run now).symm, fun e mem => by cases mem⟩
  | crash phase =>
    refine ⟨?_, fun e mem => by cases mem⟩
    simp [Pipeline.upcoming, phase]
  | resume named =>
    exact ⟨Nat.le_of_eq (upcoming_resume p).symm, fun e mem => by cases mem⟩
  | _ phase =>
    refine ⟨by simp [Pipeline.upcoming, phase], fun e mem => ?_⟩
    rw [List.mem_singleton.1 mem]
    simp [Pipeline.upcoming, phase, Pipeline.event]

/-- A pipeline that gathers triggers sends nothing, and goes on to gather until a lint run
begins. -/
private theorem gathers (change : p.Change n p') {all : List Trigger} (gathers : p.Gathers all)
    (unbegun : n.begun = []) : p'.Gathers (all ++ n.triggers) ∧ n.sent = [] := by
  have quiet : ∀ {trigger finish ends}, p.phase ≠ .running trigger finish ends := by
    intro trigger finish ends running
    cases gathers with
    | rest phase _ => rcases phase with phase | phase <;> rw [phase] at running <;> cases running
    | window phase _ =>
      rw [phase] at running
      cases running
  cases change with
  | stay => exact ⟨by rwa [List.append_nil], rfl⟩
  | post trigger alive =>
    refine ⟨?_, rfl⟩
    cases gathers with
    | rest phase inbox => exact .rest phase (congrArg (· ++ [trigger]) inbox)
    | @window taken older due phase eq =>
      have more : all ++ [trigger] = taken ++ older :: (p.inbox ++ [trigger]) := by
        rw [eq, List.append_assoc]
        rfl
      exact .window phase more
  | receive now =>
    refine ⟨?_, rfl⟩
    rw [List.append_nil]
    unfold Pipeline.receive
    split
    · exact gathers
    · exact gathers
    · exact gathers
    · rename_i trigger rest inbox free _
      cases gathers with
      | rest phase eq =>
        have all_eq : all = [] ++ trigger :: rest := eq.symm.trans inbox
        exact .window rfl all_eq
      | @window taken older due phase eq =>
        have all_eq : all = (taken ++ [older]) ++ trigger :: rest := by
          rw [eq, inbox, List.append_assoc]
          rfl
        exact .window rfl all_eq
  | begin run now phase => cases unbegun
  | send phase => exact absurd phase quiet
  | block phase => exact absurd phase quiet
  | crash phase => exact absurd phase quiet
  | resume named =>
    refine ⟨?_, rfl⟩
    rw [List.append_nil]
    unfold Pipeline.resume
    split
    · rename_i blocked
      cases gathers with
      | rest _ inbox => exact .rest (Or.inl rfl) inbox
      | window phase _ =>
        rw [phase] at blocked
        cases blocked
    · exact gathers

end Change

/-- Of the triggers taken in at one time the newest counts. -/
theorem receiveAll_of_inbox_append {p : Pipeline} {now : Nat} {before : List Trigger}
    {newest : Trigger} (alive : p.phase ≠ .ended) (free : p.phase ≠ .blocked)
    (inbox : p.inbox = before ++ [newest]) :
    p.receiveAll now = { p.openWindow now newest with inbox := [] } := by
  have first : ∀ {p : Pipeline} {trigger rest}, p.phase ≠ .ended → p.phase ≠ .blocked →
      p.inbox = trigger :: rest →
      p.receiveAll now = rest.foldl (fun p _ => p.receive now)
        { p.openWindow now trigger with inbox := rest } := by
    intro p trigger rest alive free inbox
    have taken : p.receive now = { p.openWindow now trigger with inbox := rest } := by
      unfold receive
      split
      · rename_i phase
        exact absurd phase free
      · rename_i phase
        exact absurd phase alive
      · rename_i empty _ _
        rw [inbox] at empty
        cases empty
      · rename_i cut _ _
        obtain ⟨rfl, rfl⟩ := List.cons.inj (inbox.symm.trans cut)
        rfl
    rw [receiveAll, inbox, List.foldl_cons, taken]
  induction before generalizing p with
  | nil => exact first alive free inbox
  | cons trigger rest ih =>
    have opened : p.receiveAll now =
        ({ p.openWindow now trigger with inbox := rest ++ [newest] } : Pipeline).receiveAll now :=
      first alive free inbox
    rw [opened]
    exact ih (by simp [openWindow]) (by simp [openWindow]) rfl

namespace Gathers

variable {p : Pipeline} {all : List Trigger}

theorem alive (gathers : p.Gathers all) : p.isAlive = true := by
  unfold isAlive
  cases gathers with
  | rest phase _ => rcases phase with phase | phase <;> rw [phase]
  | window phase _ => rw [phase]

/-- However many triggers were gathered, taking them in leaves one window, for the newest. -/
theorem receiveAll {before : List Trigger} {newest : Trigger}
    (gathers : p.Gathers (before ++ [newest])) (free : p.phase ≠ .blocked) (now : Nat) :
    ∃ due, (p.receiveAll now).phase = .debouncing newest due ∧ (p.receiveAll now).inbox = [] ∧
      (p.inbox ≠ [] → due = now + p.settings.options.debounce) := by
  have up : p.phase ≠ .ended := by
    intro ended
    have alive := gathers.alive
    simp [isAlive, ended] at alive
  have opened : ∀ {older}, p.inbox = older ++ [newest] →
      ∃ due, (p.receiveAll now).phase = .debouncing newest due ∧ (p.receiveAll now).inbox = [] ∧
        (p.inbox ≠ [] → due = now + p.settings.options.debounce) := by
    intro older inbox
    rw [receiveAll_of_inbox_append up free inbox]
    exact ⟨_, rfl, rfl, fun _ => rfl⟩
  cases gathers with
  | rest _ inbox => exact opened inbox
  | @window taken trigger due phase eq =>
    rcases List.eq_nil_or_concat' p.inbox with empty | ⟨older, last, inbox⟩
    · have still := receiveAll_of_inbox empty now
      rw [empty] at eq
      obtain ⟨_, same⟩ := List.append_inj' eq rfl
      obtain rfl : newest = trigger := by simpa using same
      rw [still]
      exact ⟨due, phase, empty, fun some => absurd empty some⟩
    · -- The newest trigger of all is the last in the inbox.
      have shape : before ++ [newest] = (taken ++ trigger :: older) ++ [last] := by
        rw [eq, inbox, List.append_assoc]
        rfl
      obtain ⟨_, same⟩ := List.append_inj' shape rfl
      obtain rfl : newest = last := by simpa using same
      exact opened inbox

end Gathers

end Pipeline

namespace Manager

variable {m : Manager} {v : Move}

/-! ### Results that wait -/

/-- What waits for room is one result of each blocked pipeline. -/
structure Attended (m : Manager) : Prop where
  registered : m.Registered
  blocked : ∀ e ∈ m.waiting, ∃ t, m.registered? e.document = some t ∧
    t.pipeline.id = e.pipeline ∧ t.pipeline.phase = .blocked
  once : (m.waiting.map Event.pipeline).Nodup
  waits : ∀ {p t}, m.registered? p = some t → t.pipeline.phase = .blocked →
    ∃ e ∈ m.waiting, e.pipeline = t.pipeline.id

theorem attended_new (settings : LintSettings) : (new settings).Attended where
  registered := registered_new settings
  blocked e mem := by cases mem
  once := List.nodup_nil
  waits h := by cases h

/-- A result is sent by a pipeline that is running, when its run ends. -/
theorem Registered.sentIn_cases (reg : m.Registered) (v : Move) : m.sentIn v = [] ∨
    ∃ t trigger result ends, v = .finish t.pipeline.id ∧
      m.registered? t.pipeline.document = some t ∧
      t.pipeline.phase = .running trigger (.result result) ends ∧
      m.sentIn v = [t.pipeline.event trigger result] := by
  cases v with
  | finish id =>
    cases found : m.pipeline? id with
    | none => exact Or.inl (by simp [sentIn, completedIn, found])
    | some q =>
      obtain ⟨d, t, here, rfl, rfl⟩ := pipeline?_eq_some reg.sorted found
      have own := reg.of_document here (Path.same_refl _)
      cases phase : t.pipeline.phase with
      | running trigger ending ends =>
        cases ending with
        | crash => exact Or.inl (by simp [sentIn, completedIn, found, phase])
        | result result =>
          refine Or.inr ⟨t, trigger, result, ends, rfl, own, phase, ?_⟩
          simp [sentIn, completedIn, found, phase, Flight.event, Pipeline.flight, Pipeline.event]
      | _ => exact Or.inl (by simp [sentIn, completedIn, found, phase])
  | _ => exact Or.inl rfl

private theorem dropped_of_closed {e : Event} (mem : e ∈ m.waiting)
    (closed : e.pipeline ∈ m.closedIn v) : e ∈ m.droppedIn v := by
  cases v with
  | untrack document =>
    simp only [closedIn, droppedIn] at closed ⊢
    cases found : m.tracked.find? document with
    | none => simp [found] at closed
    | some t =>
      rw [found] at closed
      have named : e.pipeline = t.pipeline.id := by simpa using closed
      simpa [named] using mem
  | shutdown => exact mem
  | _ => cases closed

/-- The results of a pipeline that stays registered are not dropped. -/
private theorem Registered.not_dropped (reg : m.Registered) {p : Path} {t t' : Tracked}
    (here : m.registered? p = some t) (there : (m.move v).registered? p = some t') {e : Event}
    (own : e.pipeline = t.pipeline.id) : e ∉ m.droppedIn v := by
  intro dropped
  cases v with
  | untrack document =>
    simp only [droppedIn] at dropped
    split at dropped
    · cases dropped
    · rename_i u found
      have named : e.pipeline = u.pipeline.id := by simpa using (List.mem_filter.1 dropped).2
      have same := reg.id_inj here found (own.symm.trans named)
      have gone := registered?_untrack_of_same m same
      rw [Manager.move, gone] at there
      cases there
  | shutdown => cases there
  | _ => cases dropped

/-- A result whose pipeline stays registered waits as long as nothing of the pipeline enters the
queue. -/
theorem Registered.waits_of_unentered (reg : m.Registered) {p : Path} {t t' : Tracked}
    (here : m.registered? p = some t) (there : (m.move v).registered? p = some t') {e : Event}
    (mem : e ∈ m.sentIn v ++ m.waiting) (own : e.pipeline = t.pipeline.id)
    (unentered : (m.notes v p t.pipeline.id).entered = []) : e ∈ (m.move v).waiting := by
  have place := (waiting_move m v).mem_iff.1 mem
  simp only [leftWaitingIn, List.mem_append] at place
  rcases place with (enters | dropped) | waits
  · have noted : e ∈ (m.notes v p t.pipeline.id).entered :=
      List.mem_filter.2 ⟨enters, by simp [own]⟩
    rw [unentered] at noted
    cases noted
  · exact absurd dropped (reg.not_dropped here there own)
  · exact waits

namespace Attended

/-- What is sent comes from a pipeline of which nothing waits. -/
theorem nodup_sources (attended : m.Attended) (v : Move) :
    ((m.sentIn v ++ m.waiting).map Event.pipeline).Nodup := by
  rcases attended.registered.sentIn_cases v with none | ⟨t, _, _, _, _, here, phase, one⟩
  · rw [none]
    exact attended.once
  · rw [one, List.singleton_append, List.map_cons, List.nodup_cons]
    refine ⟨?_, attended.once⟩
    intro mem
    obtain ⟨e, waits, ids⟩ := List.mem_map.1 mem
    obtain ⟨u, there, named, blocked⟩ := attended.blocked e waits
    have same : u = t := attended.registered.unique there here (named.trans ids)
    rw [same, phase] at blocked
    cases blocked

theorem source_of_mem (m : Manager) (v : Move) {e : Event}
    (mem : e ∈ m.leftWaitingIn v ++ (m.move v).waiting) : e ∈ m.sentIn v ++ m.waiting :=
  (waiting_move m v).mem_iff.2 mem

/-- A result enters, is dropped or waits, and no other result of its pipeline does. -/
theorem apart (attended : m.Attended) {e w : Event} (left : e ∈ m.leftWaitingIn v)
    (waits : w ∈ (m.move v).waiting) : e.pipeline ≠ w.pipeline := by
  have nodup := ((waiting_move m v).map Event.pipeline).nodup_iff.1 (attended.nodup_sources v)
  rw [List.map_append, List.nodup_append] at nodup
  exact nodup.2.2 _ (List.mem_map_of_mem left) _ (List.mem_map_of_mem waits)

/-- The pipeline of a result that is sent or waits is registered, and from then on blocked if
nothing of it enters the queue. -/
theorem source (attended : m.Attended) {e : Event} (mem : e ∈ m.sentIn v ++ m.waiting) :
    ∃ t, m.registered? e.document = some t ∧ t.pipeline.id = e.pipeline ∧
      t.pipeline.isAlive = true ∧
      (t.pipeline.phase = .blocked ∨ (m.notes v e.document e.pipeline).sent ≠ []) ∧
      (t.pipeline.id ∈ m.closedIn v → e ∈ m.droppedIn v) := by
  rcases List.mem_append.1 mem with sent | waits
  · rcases attended.registered.sentIn_cases v with none | ⟨t, _, _, _, rfl, here, phase, one⟩
    · rw [none] at sent
      cases sent
    · rw [one] at sent
      rw [List.mem_singleton.1 sent]
      refine ⟨t, here, rfl, by simp [Pipeline.isAlive, phase], Or.inr ?_, fun closed => ?_⟩
      · simp [notes, one, Pipeline.event]
      · cases closed
  · obtain ⟨t, here, ids, phase⟩ := attended.blocked e waits
    refine ⟨t, here, ids, by simp [Pipeline.isAlive, phase], Or.inl phase, fun closed => ?_⟩
    rw [ids] at closed
    exact dropped_of_closed waits closed

private theorem blocked_move (attended : m.Attended) {w : Event} (waits : w ∈ (m.move v).waiting) :
    ∃ t, (m.move v).registered? w.document = some t ∧ t.pipeline.id = w.pipeline ∧
      t.pipeline.phase = .blocked := by
  have from_before := source_of_mem m v (List.mem_append_right _ waits)
  obtain ⟨t, here, ids, alive, ready, closes⟩ := attended.source from_before
  have unentered : (m.notes v w.document t.pipeline.id).entered = [] := by
    refine List.filter_eq_nil_iff.2 fun e enters => ?_
    have other := attended.apart (List.mem_append_left _ enters) waits
    simpa [ids] using other
  have open_still : t.pipeline.id ∉ m.closedIn v := by
    intro closed
    exact attended.apart (List.mem_append_right _ (closes closed)) waits rfl
  obtain ⟨t', there, change⟩ := attended.registered.change_of_alive here alive open_still
  have blocked := change.phase_blocked_iff
  rw [ids] at blocked unentered
  exact ⟨t', there, change.keeps.1.trans ids, blocked.2 ⟨ready, unentered⟩⟩

private theorem waits_move (attended : m.Attended) {p : Path} {t' : Tracked}
    (there : (m.move v).registered? p = some t') (phase : t'.pipeline.phase = .blocked) :
    ∃ e ∈ (m.move v).waiting, e.pipeline = t'.pipeline.id := by
  rcases attended.registered.newcomer_or_change there with ⟨_, _, rfl, _⟩ | ⟨t, before, change⟩
  · cases phase
  · obtain ⟨ready, unentered⟩ := change.phase_blocked_iff.1 phase
    obtain ⟨e, mem, ids⟩ : ∃ e ∈ m.sentIn v ++ m.waiting, e.pipeline = t.pipeline.id := by
      rcases ready with blocked | sent
      · obtain ⟨e, mem, ids⟩ := attended.waits before blocked
        exact ⟨e, List.mem_append_right _ mem, ids⟩
      · obtain ⟨e, mem⟩ := List.exists_mem_of_ne_nil _ sent
        obtain ⟨mem, ids⟩ := List.mem_filter.1 mem
        exact ⟨e, List.mem_append_left _ mem, by simpa using ids⟩
    have waits := attended.registered.waits_of_unentered before there mem ids unentered
    exact ⟨e, waits, ids.trans change.keeps.1.symm⟩

/-- Every move leaves what waits attended. -/
theorem move (attended : m.Attended) (v : Move) : (m.move v).Attended where
  registered := attended.registered.move v
  blocked _ mem := attended.blocked_move mem
  once := by
    have nodup := ((waiting_move m v).map Event.pipeline).nodup_iff.1 (attended.nodup_sources v)
    rw [List.map_append, List.nodup_append] at nodup
    exact nodup.2.1
  waits there phase := attended.waits_move there phase

end Attended

/-! ### Order -/

/-- Results of one pipeline enter the queue in the order of their runs, and those that are sent
later are of later runs. -/
structure Sequenced (m : Manager) (entered : List Event) : Prop where
  attended : m.Attended
  known : ∀ e ∈ entered ++ m.waiting, e.pipeline ≤ m.lastId
  below : ∀ e ∈ entered ++ m.waiting, ∀ {p t}, m.registered? p = some t →
    t.pipeline.id = e.pipeline → e.generation < t.pipeline.upcoming
  ranked : entered.Pairwise Event.InTurn
  ahead : ∀ e ∈ entered, ∀ w ∈ m.waiting, e.InTurn w

private theorem sequenced_new (settings : LintSettings) : (new settings).Sequenced [] where
  attended := attended_new settings
  known e mem := by cases mem
  below e mem := by cases mem
  ranked := List.Pairwise.nil
  ahead e mem := by cases mem

namespace Sequenced

variable {entered : List Event}

/-- What entered came before all that is sent now or waits. -/
theorem before (s : m.Sequenced entered) {e d : Event} (mem : e ∈ entered)
    (next : d ∈ m.sentIn v ++ m.waiting) : e.InTurn d := by
  rcases List.mem_append.1 next with sent | waits
  · rcases s.attended.registered.sentIn_cases v with none | ⟨t, _, _, _, rfl, here, phase, one⟩
    · rw [none] at sent
      cases sent
    · rw [one] at sent
      rw [List.mem_singleton.1 sent]
      intro ids
      have past := s.below e (List.mem_append_left _ mem) here ids.symm
      simpa [Pipeline.upcoming, phase, Pipeline.event] using past
  · exact s.ahead e mem d waits

/-- Every result that entered, or waits after a move, did so before or was sent in the move. -/
theorem origin {e : Event} (mem : e ∈ entered ++ m.enteredIn v ++ (m.move v).waiting) :
    e ∈ entered ++ m.waiting ∨ e ∈ m.sentIn v := by
  have later : e ∈ entered ∨ e ∈ m.sentIn v ++ m.waiting := by
    rw [List.append_assoc] at mem
    rcases List.mem_append.1 mem with old | new
    · exact Or.inl old
    · refine Or.inr (Attended.source_of_mem m v ?_)
      rcases List.mem_append.1 new with enters | waits
      · exact List.mem_append_left _ (List.mem_append_left _ enters)
      · exact List.mem_append_right _ waits
  rcases later with old | later
  · exact Or.inl (List.mem_append_left _ old)
  · rcases List.mem_append.1 later with sent | waits
    · exact Or.inr sent
    · exact Or.inl (List.mem_append_right _ waits)

theorem known_before (s : m.Sequenced entered) {e : Event}
    (mem : e ∈ entered ++ m.enteredIn v ++ (m.move v).waiting) : e.pipeline ≤ m.lastId := by
  rcases origin mem with old | sent
  · exact s.known e old
  · obtain ⟨t, here, ids, _⟩ := s.attended.source (List.mem_append_left _ sent)
    rw [← ids]
    exact s.attended.registered.id_le here

private theorem below_move (s : m.Sequenced entered) {e : Event}
    (mem : e ∈ entered ++ m.enteredIn v ++ (m.move v).waiting) {p : Path} {t' : Tracked}
    (there : (m.move v).registered? p = some t') (ids : t'.pipeline.id = e.pipeline) :
    e.generation < t'.pipeline.upcoming := by
  have known := s.known_before mem
  rcases s.attended.registered.newcomer_or_change there with ⟨_, _, rfl, _⟩ | ⟨t, here, change⟩
  · have new : m.lastId + 1 = e.pipeline := ids
    omega
  · have same : t.pipeline.id = e.pipeline := change.keeps.1.symm.trans ids
    obtain ⟨later, sends⟩ := change.upcoming
    rcases origin mem with past | sent
    · have below := s.below e past here same
      omega
    · exact (sends e (List.mem_filter.2 ⟨sent, by simp [same]⟩)).2

private theorem ranked_move (s : m.Sequenced entered) (v : Move) :
    (entered ++ m.enteredIn v).Pairwise Event.InTurn := by
  rw [List.pairwise_append]
  refine ⟨s.ranked, ?_, ?_⟩
  · rcases queue_cases m v with shorter | ⟨_, e, _, longer⟩
    · rw [enteredIn_of_taken shorter]
      exact List.Pairwise.nil
    · rw [enteredIn_of_append longer]
      exact List.pairwise_singleton _ e
  · intro e mem d enters
    refine s.before mem (Attended.source_of_mem m v ?_)
    exact List.mem_append_left _ (List.mem_append_left _ enters)

private theorem move (s : m.Sequenced entered) (v : Move) :
    (m.move v).Sequenced (entered ++ m.enteredIn v) where
  attended := s.attended.move v
  known e mem := Nat.le_trans (s.known_before mem) (move_counts m v).1
  below _ mem _ _ there ids := s.below_move mem there ids
  ranked := s.ranked_move v
  ahead := by
    intro e mem w waits
    rcases List.mem_append.1 mem with old | enters
    · exact s.before old (Attended.source_of_mem m v (List.mem_append_right _ waits))
    · intro ids
      exact absurd ids (s.attended.apart (List.mem_append_left _ enters) waits)

end Sequenced

theorem sequenced_after (settings : LintSettings) (history : List Act) :
    ((new settings).after history).Sequenced ((new settings).entered history) :=
  @log_induction _ Unit enteredIn (fun _ _ => []) (fun m entered _ => m.Sequenced entered) _
    (sequenced_new settings) (fun _ v _ _ s => s.move v) history

/-! ### Blocked pipelines -/

/-- Since a pipeline was blocked it gathers triggers, and its result waits or has entered. -/
structure Gathering (p : Path) (id : Nat) (e : Event) (all : List Trigger) (m : Manager)
    (entered : List Event) : Prop where
  attended : m.Attended
  pipeline : ∃ t, m.registered? p = some t ∧ t.pipeline.id = id ∧ t.pipeline.Gathers all ∧
    (t.pipeline.phase = .blocked ∧ e ∈ m.waiting ∨ t.pipeline.phase ≠ .blocked ∧ e ∈ entered)
  own : e.pipeline = id

namespace Gathering

variable {p : Path} {id : Nat} {e : Event} {all : List Trigger} {entered : List Event}

private theorem move (g : Gathering p id e all m entered) (open_still : id ∉ m.closedIn v)
    (unbegun : ∀ f ∈ m.begunIn v, f.pipeline ≠ id) :
    Gathering p id e (all ++ triggersFor p m v) (m.move v) (entered ++ m.enteredIn v) := by
  obtain ⟨t, here, rfl, gathers, place⟩ := g.pipeline
  refine ⟨g.attended.move v, ?_, g.own⟩
  have none_begun : (m.notes v p t.pipeline.id).begun = [] :=
    List.filter_eq_nil_iff.2 fun f mem => by simpa using unbegun f mem
  obtain ⟨t', there, change⟩ :=
    g.attended.registered.change_of_alive here gathers.alive open_still
  obtain ⟨gathers', unsent⟩ := change.gathers gathers none_begun
  have blocked_iff := change.phase_blocked_iff
  refine ⟨t', there, change.keeps.1, gathers', ?_⟩
  rcases place with ⟨blocked, waits⟩ | ⟨free, enters⟩
  · have source : e ∈ m.sentIn v ++ m.waiting := List.mem_append_right _ waits
    by_cases unentered : (m.notes v p t.pipeline.id).entered = []
    · have waits' := g.attended.registered.waits_of_unentered here there source g.own unentered
      exact Or.inl ⟨blocked_iff.2 ⟨Or.inl blocked, unentered⟩, waits'⟩
    · refine Or.inr ⟨fun phase => unentered (blocked_iff.1 phase).2, ?_⟩
      -- What enters for the pipeline is the one result that waits for it.
      obtain ⟨d, noted⟩ := List.exists_mem_of_ne_nil _ unentered
      obtain ⟨enters, ids⟩ := List.mem_filter.1 noted
      have origin := Attended.source_of_mem m v
        (List.mem_append_left _ (List.mem_append_left _ enters))
      have ids : d.pipeline = e.pipeline := by simpa [g.own] using ids
      have same : d = e :=
        List.inj_on_of_nodup_map (g.attended.nodup_sources v) origin source ids
      exact List.mem_append_right _ (same ▸ enters)
  · refine Or.inr ⟨fun phase => ?_, List.mem_append_left _ enters⟩
    rcases (blocked_iff.1 phase).1 with blocked | sent
    · exact free blocked
    · exact sent unsent

/-- A blocked pipeline loses no trigger: until it is closed or begins a lint run, it has all that
came since, whether its result still waits or has entered the queue. -/
theorem run (g : Gathering p id e all m entered) {moves : List Move}
    (open_still : id ∉ m.log closedIn moves)
    (unbegun : ∀ f ∈ m.log begunIn moves, f.pipeline ≠ id) :
    Gathering p id e (all ++ m.log (triggersFor p) moves) (moves.foldl Manager.move m)
      (entered ++ m.log enteredIn moves) := by
  induction moves generalizing m all entered with
  | nil => simpa [log] using g
  | cons v rest ih =>
    simp only [log, List.mem_append, not_or] at open_still unbegun
    have first := g.move open_still.1 fun f mem => unbegun f (Or.inl mem)
    have later := ih first open_still.2 fun f mem => unbegun f (Or.inr mem)
    simpa only [log, List.foldl_cons, List.append_assoc] using later

end Gathering

end Manager

end ModBench
