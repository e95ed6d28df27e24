import Mathlib.Data.List.Nodup
import ModBench.Proofs.Lint.Backpressure
import ModBench.Proofs.Lint.Flights
import ModBench.Proofs.Lint.Interleaving
import ModBench.Proofs.Lint.Triggers

/-!
Delivery of results.  Through a queue of bounded length no result is lost, none is delivered twice,
and none overtakes another.
-/

set_option autoImplicit false
set_option relaxedAutoImplicit false

namespace ModBench.Manager

variable {m : Manager}

/-! ### Polling -/

theorem next_queue (m : Manager) : m.next.queue = m.queue.tail := by
  cases queued : m.queue with
  | nil => simp [next, queued]
  | cons e rest =>
    rw [next_of_queue queued]
    exact (handle_queues { m with queue := rest } e).1

/-- What polling takes from the queue. -/
structure Polls (m : Manager) (budget : Nat) : Prop where
  count : (m.poll budget).1 = min budget m.queue.length
  handled : (m.handled [.poll budget]).map Prod.snd = m.queue.take budget
  left : (m.poll budget).2.queue = m.queue.drop budget

private theorem poll_count (m : Manager) (budget : Nat) :
    (m.poll budget).1 = min budget m.queue.length := by
  induction budget generalizing m with
  | zero => rw [poll, Nat.zero_min]
  | succ budget ih =>
    rw [poll]
    split
    · rename_i empty
      rw [List.isEmpty_iff.1 empty, List.length_nil, Nat.min_zero]
    · rename_i some
      have rest := ih m.next
      have pos : m.queue.length ≠ 0 := by simpa using some
      rw [next_queue, List.length_tail] at rest
      simp only [rest]
      omega

theorem poll_queue (m : Manager) (budget : Nat) :
    (m.poll budget).2.queue = m.queue.drop budget := by
  induction budget generalizing m with
  | zero => rfl
  | succ budget ih =>
    rw [poll]
    split
    · rename_i empty
      rw [List.isEmpty_iff.1 empty, List.drop_nil]
    · exact (ih m.next).trans (by rw [next_queue, List.drop_tail])

private theorem log_handledIn_poll (m : Manager) (budget : Nat) :
    (m.log handledIn (List.replicate budget .next)).map Prod.snd = m.queue.take budget := by
  induction budget generalizing m with
  | zero => rfl
  | succ budget ih =>
    rw [List.replicate_succ, log, List.map_append, move, ih, next_queue]
    cases queued : m.queue <;> simp [handledIn, queued]

private theorem polls (m : Manager) (budget : Nat) : m.Polls budget where
  count := poll_count m budget
  handled := by
    simp only [Manager.handled, movesOf, moves, List.append_nil]
    exact log_handledIn_poll m budget
  left := poll_queue m budget

/-- Two polls in a row are one. -/
private theorem poll_add (m : Manager) (first second : Nat) :
    m.poll (first + second) = ((m.poll first).1 + ((m.poll first).2.poll second).1,
      ((m.poll first).2.poll second).2) := by
  induction first generalizing m with
  | zero => simp [poll]
  | succ first ih =>
    rw [Nat.succ_add_eq_add_succ, Nat.add_succ, poll, poll]
    split
    · rename_i empty
      simp only [poll_of_empty (List.isEmpty_iff.1 empty)]
    · rw [ih]
      refine Prod.ext ?_ rfl
      simp only
      omega

/-! ### Places of results -/

theorem queue_length_le (small : m.queue.length ≤ queueCapacity) (history : List Act) :
    (m.after history).queue.length ≤ queueCapacity := by
  refine @after_induction (fun m => m.queue.length ≤ queueCapacity) _ small ?_ history
  intro m v small
  rcases queue_cases m v with shorter | ⟨_, e, room, longer⟩
  · have lengths := congrArg List.length shorter
    rw [List.length_append] at lengths
    omega
  · rw [longer, List.length_append, List.length_singleton]
    omega

/-- Only with its pipeline is a waiting result dropped. -/
private theorem closed_of_dropped (settings : LintSettings) (history : List Act) :
    ∀ e ∈ (new settings).dropped history, e.pipeline ∈ (new settings).closed history := by
  have closing : ∀ {m : Manager} {v : Move}, m.Attended → ∀ e ∈ m.droppedIn v,
      e.pipeline ∈ m.closedIn v := by
    intro m v attended e mem
    cases v with
    | untrack document =>
      simp only [droppedIn] at mem
      split at mem
      · cases mem
      · rename_i t found
        have named : e.pipeline = t.pipeline.id := by simpa using (List.mem_filter.1 mem).2
        simp [closedIn, found, named]
    | shutdown =>
      obtain ⟨t, here, ids, _⟩ := attended.blocked e mem
      rw [← ids]
      refine List.mem_map_of_mem ?_
      exact (mem_pipelines_iff attended.registered.sorted).2 ⟨_, t, here, rfl⟩
    | _ => cases mem
  refine (@log_induction _ _ droppedIn closedIn
    (fun m dropped closed => m.Attended ∧ ∀ e ∈ dropped, e.pipeline ∈ closed) _
    ⟨attended_new settings, fun e mem => by cases mem⟩ ?_ history).2
  rintro m v dropped closed ⟨attended, sofar⟩
  refine ⟨attended.move v, fun e mem => ?_⟩
  rcases List.mem_append.1 mem with old | new
  · exact List.mem_append_left _ (sofar e old)
  · exact List.mem_append_right _ (closing attended e new)

/-- What becomes of the results of all lint runs in a history. -/
structure Delivery (s : Manager) (history : List Act) : Prop where
  capacity : (s.after history).queue.length ≤ queueCapacity
  runs : (s.begun history).Perm ((s.completed history).map Prod.fst ++ s.crashed history ++
    s.cancelled history ++ (s.after history).flights)
  sent : s.sent history = (s.completed history).map fun c => c.1.event c.2
  distinct : ((s.sent history).map Event.key).Nodup
  /-- Every result is in one place. -/
  places : (s.sent history).Perm ((s.handled history).map Prod.snd ++ s.drained history ++
    s.dropped history ++ (s.after history).queue ++ (s.after history).waiting)
  dropped : ∀ e ∈ s.dropped history, e.pipeline ∈ s.closed history
  waiting : (s.after history).Attended
  fifo : s.entered history = s.taken history ++ (s.after history).queue
  handled : ((s.handled history).map Prod.snd).Sublist (s.entered history)
  ranked : ((s.handled history).map Prod.snd).Pairwise Event.InTurn

private theorem places (settings : LintSettings) (history : List Act) :
    ((new settings).sent history).Perm (((new settings).handled history).map Prod.snd ++
      (new settings).drained history ++ (new settings).dropped history ++
      ((new settings).after history).queue ++ ((new settings).after history).waiting) := by
  have sent := sent_perm (new settings) history
  have entered := entered_eq (new settings) history
  have taken := taken_perm (new settings) history
  have none_queued : (new settings).queue = [] := rfl
  have none_waiting : (new settings).waiting = [] := rfl
  rw [none_waiting, List.append_nil] at sent
  rw [none_queued, List.nil_append] at entered
  rw [entered] at sent
  refine sent.trans (List.Perm.append_right _ ?_)
  -- What the queue holds still and what was dropped change places.
  rw [List.append_assoc, List.append_assoc (_ ++ _)]
  exact taken.append List.perm_append_comm

private theorem handled_sublist_taken (m : Manager) (history : List Act) :
    ((m.handled history).map Prod.snd).Sublist (m.taken history) := by
  rw [handled, ← log_map]
  exact log_sublist (fun m v => List.sublist_append_left _ (m.drainedIn v)) m _

theorem delivery (settings : LintSettings) (history : List Act) :
    Delivery (new settings) history := by
  have fifo : (new settings).entered history =
      (new settings).taken history ++ ((new settings).after history).queue :=
    entered_eq (new settings) history
  have sequenced := sequenced_after settings history
  have handled : (((new settings).handled history).map Prod.snd).Sublist
      ((new settings).entered history) := by
    rw [fifo]
    refine List.Sublist.trans ?_ (List.sublist_append_left _ _)
    exact handled_sublist_taken (new settings) history
  exact {
    capacity := queue_length_le (Nat.zero_le _) history
    runs := fates settings history
    sent := sent_eq (new settings) history
    distinct := nodup_sent settings history
    places := places settings history
    dropped := closed_of_dropped settings history
    waiting := sequenced.attended
    fifo := fifo
    handled := handled
    ranked := sequenced.ranked.sublist handled }

/-! ### Blocked pipelines -/

/-- Taking in what a document's pipeline got leaves one debounce window, for this trigger. -/
def Collapses (m : Manager) (p : Path) (id : Nat) (newest : Trigger) : Prop :=
  ∀ now, ∃ receives : List Act, (∀ a ∈ receives, ∃ id, a = .receive id now) ∧
    ∃ t due, (m.after receives).registered? p = some t ∧ t.pipeline.id = id ∧
      t.pipeline.phase = .debouncing newest due ∧ t.pipeline.inbox = []

/-- What a pipeline that was blocked has become, with all triggers that it had then and got since:
its result waits still and so do they, or its result has entered the queue and the newest of them
will count. -/
inductive Retains (p : Path) (e : Event) (all : List Trigger) (m : Manager) (entered : List Event) :
    Prop
  | blocked {t : Tracked} : m.registered? p = some t → t.pipeline.id = e.pipeline →
      t.pipeline.phase = .blocked → e ∈ m.waiting → t.pipeline.inbox = all →
      Retains p e all m entered
  | freed {t : Tracked} : m.registered? p = some t → t.pipeline.id = e.pipeline →
      t.pipeline.phase ≠ .blocked → e ∈ entered → t.pipeline.Gathers all →
      (∀ before newest, all = before ++ [newest] → m.Collapses p e.pipeline newest) →
      Retains p e all m entered

private theorem collapses {p : Path} {t : Tracked} (here : m.registered? p = some t)
    {before : List Trigger} {newest : Trigger}
    (gathers : t.pipeline.Gathers (before ++ [newest])) (free : t.pipeline.phase ≠ .blocked) :
    m.Collapses p t.pipeline.id newest := by
  intro now
  refine ⟨m.backlog.map fun id => .receive id now, ?_, ?_⟩
  · intro a mem
    obtain ⟨id, _, rfl⟩ := List.mem_map.1 mem
    exact ⟨id, rfl⟩
  · rw [← deliver_eq_after, registered?_deliver, here, Option.map_some]
    obtain ⟨due, phase, inbox, _⟩ := gathers.receiveAll free now
    exact ⟨_, due, rfl, (t.pipeline.receiveAll_keeps now).1, phase, inbox⟩

private theorem Attended.retains (attended : m.Attended) {p : Path} {t : Tracked}
    (here : m.registered? p = some t) (phase : t.pipeline.phase = .blocked) :
    ∃ e ∈ m.waiting, e.pipeline = t.pipeline.id ∧ ∀ later,
      t.pipeline.id ∉ m.closed later → (∀ f ∈ m.begun later, f.pipeline ≠ t.pipeline.id) →
      Retains p e (t.pipeline.inbox ++ m.triggers p later) (m.after later) (m.entered later) := by
  obtain ⟨e, waits, ids⟩ := attended.waits here phase
  refine ⟨e, waits, ids, fun later open_still unbegun => ?_⟩
  have gathers : t.pipeline.Gathers t.pipeline.inbox := .rest (Or.inr phase) rfl
  have start : Gathering p t.pipeline.id e t.pipeline.inbox m [] :=
    ⟨attended, ⟨t, here, rfl, gathers, Or.inl ⟨phase, waits⟩⟩, ids⟩
  obtain ⟨_, ⟨u, there, same, gathers', place⟩, _⟩ := start.run open_still unbegun
  rw [← after_eq_moves] at there place
  have named : u.pipeline.id = e.pipeline := same.trans ids.symm
  rcases place with ⟨blocked, waits'⟩ | ⟨free, enters⟩
  · have inbox : u.pipeline.inbox = t.pipeline.inbox ++ m.triggers p later := by
      cases gathers' with
      | rest _ inbox => exact inbox
      | window open_window _ =>
        rw [blocked] at open_window
        cases open_window
    exact .blocked there named blocked waits' inbox
  · refine .freed there named free enters gathers' ?_
    intro before newest eq
    have gathered : u.pipeline.Gathers (before ++ [newest]) := eq ▸ gathers'
    rw [← named]
    exact collapses there gathered free

/-! ### Main result -/

/-- At any time every result is in exactly one place: it waits with its blocked pipeline, stands in
the queue, was handled, was drained, or was dropped with its pipeline; they are handled in the order
in which they entered the queue.  A blocked pipeline has all triggers that it got since, and takes
them in as one debounce window for the newest; and polling handles as many results as are there. -/
theorem results_are_conserved (settings : LintSettings) (history : List Act) :
    Delivery (new settings) history ∧
      (∀ p t, ((new settings).after history).registered? p = some t → t.pipeline.phase = .blocked →
        ∃ e ∈ ((new settings).after history).waiting, e.pipeline = t.pipeline.id ∧
          ∀ later, t.pipeline.id ∉ ((new settings).after history).closed later →
            (∀ f ∈ ((new settings).after history).begun later, f.pipeline ≠ t.pipeline.id) →
            Retains p e (t.pipeline.inbox ++ ((new settings).after history).triggers p later)
              ((new settings).after (history ++ later))
              (((new settings).after history).entered later)) ∧
      (∀ budget, ((new settings).after history).Polls budget) ∧
      ∀ first second, ((new settings).after history).poll (first + second) =
        ((((new settings).after history).poll first).1 +
            ((((new settings).after history).poll first).2.poll second).1,
          ((((new settings).after history).poll first).2.poll second).2) := by
  have delivered := delivery settings history
  refine ⟨delivered, ?_, polls _, poll_add _⟩
  intro p t here phase
  obtain ⟨e, waits, ids, retains⟩ := delivered.waiting.retains here phase
  refine ⟨e, waits, ids, fun later open_still unbegun => ?_⟩
  rw [after_append]
  exact retains later open_still unbegun

end ModBench.Manager
