import Mathlib.Data.List.Nodup
import Mathlib.Data.List.Perm.Basic
import ModBench.Proofs.Lint.Due
import ModBench.Proofs.Lint.Turnover

/-!
Conservation.  A lint run that was begun ends, crashes, is given up or is still under way, and a
result that was sent enters the queue, is dropped or still waits for room: in every move what comes
in and what was there is what goes out and what is left.
-/

set_option autoImplicit false
set_option relaxedAutoImplicit false

namespace ModBench

/-! ### Single pipelines -/

namespace Pipeline

private theorem flight?_of_phase {p : Pipeline} {trigger : Trigger} {finish : Finish} {ends : Nat}
    (phase : p.phase = .running trigger finish ends) : p.flight? = some (p.flight trigger) := by
  simp only [flight?, phase]

/-- Taking a trigger in ends the run that is under way. -/
private theorem flight?_receive (p : Pipeline) (now : Nat) :
    (p.receive now).flight? = if p.inbox.isEmpty then p.flight? else none := by
  unfold receive
  split
  · rename_i phase
    simp [flight?, phase]
  · rename_i phase
    simp [flight?, phase]
  · rename_i inbox _ _
    simp [inbox]
  · rename_i trigger rest inbox _ _
    simp [inbox, flight?, openWindow]

private theorem flight?_resume (p : Pipeline) : p.resume.flight? = p.flight? := by
  unfold resume
  split
  · rename_i phase
    simp [flight?, phase]
  · rfl

end Pipeline

namespace Manager

variable {m : Manager} {v : Move}

/-! ### All pipelines -/

private theorem Registered.nodup_ids (reg : m.Registered) :
    (m.pipelines.map Pipeline.id).Nodup := by
  rw [pipelines, List.map_map, List.Nodup, List.pairwise_map]
  refine reg.sorted.imp_of_mem ?_
  intro e d here there less ids
  have own := PathMap.find?_of_mem reg.sorted here (Path.same_refl e.1)
  have other := PathMap.find?_of_mem reg.sorted there (Path.same_refl d.1)
  have same := reg.id_inj own other ids
  rw [PathMap.not_same_of_compare_lt less] at same
  cases same

theorem pipelines_updateById_of_none {id : Nat} (none : m.pipeline? id = Option.none)
    (f : Pipeline → Pipeline) : (m.updateById id f).pipelines = m.pipelines := by
  rw [pipelines_updateById]
  refine (List.map_congr_left ?_).trans (List.map_id _)
  intro q mem
  have other := List.find?_eq_none.1 none q mem
  rw [if_neg (by simpa using other)]
  rfl

/-- A pipeline stands in one place among all, and is changed there. -/
private theorem Registered.split_updateById (reg : m.Registered) {id : Nat} {q : Pipeline}
    (found : m.pipeline? id = some q) : ∃ before later, m.pipelines = before ++ q :: later ∧
      ∀ f, (m.updateById id f).pipelines = before ++ f q :: later := by
  obtain ⟨named, before, later, eq, _⟩ := List.find?_eq_some_iff_append.1 found
  refine ⟨before, later, eq, fun f => ?_⟩
  have nodup := reg.nodup_ids
  rw [eq, List.map_append, List.map_cons, List.nodup_middle, List.nodup_cons, ← List.map_append]
    at nodup
  have own : q.id = id := by simpa using named
  have other : ∀ p ∈ before ++ later, p.id ≠ id := by
    rintro p mem rfl
    exact nodup.1 (own ▸ List.mem_map_of_mem mem)
  have kept : ∀ ps : List Pipeline, (∀ p ∈ ps, p ∈ before ++ later) →
      (ps.map fun p => if p.id = id then f p else p) = ps := by
    intro ps among
    refine (List.map_congr_left ?_).trans (List.map_id _)
    intro p mem
    rw [if_neg (other p (among p mem))]
    rfl
  rw [pipelines_updateById, eq, List.map_append, List.map_cons, if_pos own,
    kept before fun p mem => List.mem_append_left _ mem,
    kept later fun p mem => List.mem_append_right _ mem]

private theorem filterMap_middle_perm {α β : Type} (f : α → Option β) (before later : List α)
    (a : α) : ((before ++ a :: later).filterMap f).Perm
      ((f a).toList ++ (before ++ later).filterMap f) := by
  have front : (before ++ a :: later).Perm (a :: (before ++ later)) := List.perm_middle
  refine (front.filterMap f).trans (List.Perm.of_eq ?_)
  cases value : f a with
  | none => rw [List.filterMap_cons_none value, Option.toList_none, List.nil_append]
  | some b => rw [List.filterMap_cons_some value, Option.toList_some, List.singleton_append]

/-- A change of one pipeline changes the runs under way by that pipeline's own. -/
theorem Registered.flights_updateById (reg : m.Registered) {id : Nat} {q : Pipeline}
    (found : m.pipeline? id = some q) : ∃ rest, m.flights.Perm (q.flight?.toList ++ rest) ∧
      ∀ f, (m.updateById id f).flights.Perm ((f q).flight?.toList ++ rest) := by
  obtain ⟨before, later, eq, changed⟩ := reg.split_updateById found
  refine ⟨(before ++ later).filterMap Pipeline.flight?, ?_, fun f => ?_⟩
  · rw [flights, eq]
    exact filterMap_middle_perm _ before later q
  · rw [flights, changed]
    exact filterMap_middle_perm _ before later (f q)

private theorem Registered.flights_untrack (reg : m.Registered) {document : Path} {t : Tracked}
    (here : m.registered? document = some t) :
    m.flights.Perm (t.pipeline.flight?.toList ++ (m.untrack document).flights) := by
  have found : m.tracked.find? document = some t := here
  obtain ⟨k, before, later, eq, _, erased⟩ := PathMap.exists_split_of_find? reg.sorted found
  have left : (m.untrack document).tracked = before ++ later := by
    simp only [Manager.untrack, found, erased]
  simp only [flights, pipelines, left, eq, List.map_append, List.map_cons]
  exact filterMap_middle_perm _ _ _ _

/-- A new pipeline has no run under way, and takes the place of one that has none. -/
private theorem Registered.flights_spawn (reg : m.Registered) {document : Path}
    (idle : ∀ t, m.registered? document = some t → t.pipeline.flight? = none) (trigger : Trigger) :
    (m.spawn document trigger).flights.Perm m.flights := by
  have fresh : (m.newcomer document trigger).pipeline.flight? = none := rfl
  cases here : m.tracked.find? document with
  | none =>
    have perm := PathMap.upsert_perm_of_find?_eq_none here
      fun _ => m.newcomer document trigger
    have flights := ((perm.map fun e => e.2.pipeline).filterMap Pipeline.flight?)
    rw [List.map_cons, List.filterMap_cons_none fresh] at flights
    exact flights
  | some t =>
    obtain ⟨k, before, later, eq, inserted, _⟩ := PathMap.exists_split_of_find? reg.sorted here
    have placed : (m.spawn document trigger).tracked =
        before ++ (k, m.newcomer document trigger) :: later := inserted _
    have idle := idle t here
    simp only [flights, pipelines, placed, eq, List.map_append, List.map_cons,
      List.filterMap_append, List.filterMap_cons, fresh, idle]
    exact List.Perm.refl _

theorem pipelines_handle (m : Manager) (e : Event) : (m.handle e).pipelines = m.pipelines := by
  simp only [pipelines, handle_tracked]
  split
  · rw [PathMap.adjust, List.map_map]
    refine List.map_congr_left ?_
    intro d _
    simp only [Function.comp_apply]
    split <;> rfl
  · rfl

private theorem pipelines_next (m : Manager) : m.next.pipelines = m.pipelines := by
  unfold next
  split
  · rfl
  · exact pipelines_handle _ _

/-! ### Lint runs -/

/-- What became of a run that is no longer under way. -/
def overIn (m : Manager) (v : Move) : List Flight :=
  (m.completedIn v).map Prod.fst ++ m.crashedIn v ++ m.cancelledIn v

private theorem flights_request (reg : m.Registered) (document : Path) :
    (m.request document).flights.Perm m.flights := by
  unfold request
  dsimp only
  split
  · rename_i absent
    refine reg.counted.flights_spawn ?_ _
    intro t here
    have found : m.tracked.find? document = some t := here
    rw [absent] at found
    cases found
  · rename_i t here
    have own : { m with requests := m.requests + 1 }.registered? document = some t := here
    split
    · obtain ⟨rest, before, after⟩ := reg.counted.flights_updateById (reg.counted.pipeline?_eq own)
      exact (after fun p => p.post (m.nextTrigger document)).trans before.symm
    · rename_i dead
      refine reg.counted.flights_spawn ?_ _
      intro u there
      rw [own] at there
      cases there
      unfold Pipeline.isAlive at dead
      split at dead
      · rename_i phase
        simp [Pipeline.flight?, phase]
      · exact absurd rfl dead

private theorem flights_receive (reg : m.Registered) (id now : Nat) :
    m.flights.Perm (m.cancelledIn (.receive id now) ++ (m.receive id now).flights) := by
  cases found : m.pipeline? id with
  | none =>
    have same : (m.receive id now).flights = m.flights := by
      rw [flights, receive, pipelines_updateById_of_none found, flights]
    simp [cancelledIn, found, same]
  | some q =>
    obtain ⟨rest, before, after⟩ := reg.flights_updateById found
    have after := after fun p => p.receive now
    rw [Pipeline.flight?_receive] at after
    simp only [cancelledIn, found]
    cases empty : q.inbox.isEmpty with
    | true =>
      rw [empty] at after
      exact before.trans after.symm
    | false =>
      rw [empty] at after
      exact before.trans (after.symm.append_left _)

private theorem flights_begin (reg : m.Registered) (id : Nat) (run : Run) (now : Nat) :
    (m.begunIn (.begin id run now) ++ m.flights).Perm (m.begin id run now).flights := by
  cases found : m.pipeline? id with
  | none =>
    have same : (m.begin id run now).flights = m.flights := by
      rw [flights, Manager.begin, pipelines_updateById_of_none found, flights]
    simp [begunIn, found, same]
  | some q =>
    obtain ⟨rest, before, after⟩ := reg.flights_updateById found
    have after := after fun p => p.begin run now
    cases phase : q.phase with
    | debouncing trigger due =>
      have idle : q.flight? = none := by simp [Pipeline.flight?, phase]
      have begun : (q.begin run now).flight? =
          some ({ q with generation := q.generation + 1 }.flight trigger) := by
        simp [Pipeline.begin, phase, Pipeline.flight?, Pipeline.flight]
      rw [idle] at before
      rw [begun] at after
      simp only [begunIn, found, phase]
      exact (before.append_left _).trans after.symm
    | _ =>
      have still : q.begin run now = q := by simp [Pipeline.begin, phase]
      rw [still] at after
      simp only [begunIn, found, phase]
      exact before.trans after.symm

private theorem flights_send (reg : m.Registered) {q : Pipeline} (found : m.pipeline? q.id = some q)
    (trigger : Trigger) (result : LintResult) :
    m.flights.Perm (q.flight?.toList ++ (m.send (q.event trigger result)).flights) := by
  obtain ⟨rest, before, after⟩ := reg.flights_updateById found
  refine before.trans (List.Perm.append_left _ ?_)
  rcases send_cases m (q.event trigger result) with ⟨_, _, sent⟩ | sent
  · rw [sent]
    exact (after fun p => { p with phase := .idle }).symm
  · rw [sent]
    exact (after fun p => { p with phase := .blocked }).symm

private theorem flights_finish (reg : m.Registered) (id : Nat) :
    m.flights.Perm (m.overIn (.finish id) ++ (m.finish id).flights) := by
  cases found : m.pipeline? id with
  | none =>
    have same : m.finish id = m := by simp [finish, found]
    simp [overIn, completedIn, crashedIn, cancelledIn, found, same]
  | some q =>
    obtain rfl : q.id = id := by simpa using List.find?_some found
    cases phase : q.phase with
    | running trigger ending ends =>
      have flying := Pipeline.flight?_of_phase phase
      cases ending with
      | crash =>
        obtain ⟨rest, before, after⟩ := reg.flights_updateById found
        have after := after fun p => { p with phase := .ended }
        rw [flying] at before
        simp only [finish, overIn, completedIn, crashedIn, cancelledIn, found, phase]
        exact before.trans (after.symm.append_left _)
      | result result =>
        have sent := flights_send reg found trigger result
        rw [flying] at sent
        simp only [finish, overIn, completedIn, crashedIn, cancelledIn, found, phase]
        exact sent
    | _ =>
      have same : m.finish q.id = m := by simp [finish, found, phase]
      simp [overIn, completedIn, crashedIn, cancelledIn, found, phase, same]

private theorem flights_enter (reg : m.Registered) (id : Nat) :
    m.flights.Perm (m.enter id).flights := by
  rcases enter_cases m id with ⟨e, _, _, _, moved⟩ | still
  · rw [moved]
    cases found : m.pipeline? id with
    | none =>
      have same := pipelines_updateById_of_none found Pipeline.resume
      exact List.Perm.of_eq (congrArg (List.filterMap Pipeline.flight?) same).symm
    | some q =>
      obtain ⟨rest, before, after⟩ := reg.flights_updateById found
      have after := after Pipeline.resume
      rw [Pipeline.flight?_resume] at after
      exact before.trans after.symm
  · rw [still]

/-- In a move no lint run comes from nowhere, and none is lost. -/
private theorem flights_move (reg : m.Registered) (v : Move) :
    (m.begunIn v ++ m.flights).Perm (m.overIn v ++ (m.move v).flights) := by
  cases v with
  | request document => exact (flights_request reg document).symm
  | untrack document =>
    simp only [begunIn, overIn, completedIn, crashedIn, cancelledIn]
    split
    · rename_i absent
      have same : m.move (.untrack document) = m := by simp [move, untrack, absent]
      rw [same]
      exact List.Perm.refl _
    · rename_i t here
      exact reg.flights_untrack here
  | next =>
    have same : (m.move .next).flights = m.flights :=
      congrArg (List.filterMap Pipeline.flight?) (pipelines_next m)
    rw [same]
    exact List.Perm.refl _
  | shutdown =>
    have none : (m.move .shutdown).flights = [] := rfl
    rw [none, List.append_nil]
    exact List.Perm.refl _
  | receive id now => exact flights_receive reg id now
  | begin id run now => exact flights_begin reg id run now
  | finish id => exact flights_finish reg id
  | enter id => exact flights_enter reg id
  | _ => exact List.Perm.refl _

/-! ### Results -/

/-- What the results that wait for room turn into. -/
def leftWaitingIn (m : Manager) (v : Move) : List Event :=
  m.enteredIn v ++ m.droppedIn v

private theorem perm_cons_eraseP {α : Type} {named : α → Bool} {a : α} {as : List α}
    (found : as.find? named = some a) : as.Perm (a :: as.eraseP named) := by
  induction as with
  | nil => cases found
  | cons b rest ih =>
    by_cases first : named b = true
    · rw [List.find?_cons_of_pos first] at found
      rw [List.eraseP_cons_of_pos first, Option.some.inj found]
    · rw [List.find?_cons_of_neg first] at found
      rw [List.eraseP_cons_of_neg first]
      exact ((ih found).cons b).trans (List.Perm.swap a b _)

private theorem waiting_finish (id : Nat) :
    (m.sentIn (.finish id) ++ m.waiting).Perm
      (m.leftWaitingIn (.finish id) ++ (m.finish id).waiting) := by
  cases found : m.pipeline? id with
  | none =>
    have same : m.move (.finish id) = m := by simp [move, finish, found]
    have entered := enteredIn_of_queue (congrArg Manager.queue same)
    have waiting : (m.finish id).waiting = m.waiting := congrArg Manager.waiting same
    simp [sentIn, completedIn, found, leftWaitingIn, entered, droppedIn, waiting]
  | some q =>
    cases phase : q.phase with
    | running trigger ending ends =>
      cases ending with
      | crash =>
        have moved : m.move (.finish id) =
            m.updateById id fun p => { p with phase := .ended } := by
          simp [move, finish, found, phase]
        have entered : m.enteredIn (.finish id) = [] := enteredIn_of_queue (by rw [moved]; rfl)
        have waiting : (m.finish id).waiting = m.waiting := (congrArg Manager.waiting moved :)
        simp [sentIn, completedIn, found, phase, leftWaitingIn, entered, droppedIn, waiting]
      | result result =>
        have moved : m.move (.finish id) = m.send (q.event trigger result) := by
          simp [move, finish, found, phase]
        have sent : m.sentIn (.finish id) = [q.event trigger result] := by
          simp [sentIn, completedIn, found, phase, Flight.event, Pipeline.flight, Pipeline.event]
        rcases send_cases m (q.event trigger result) with ⟨_, none, eq⟩ | eq
        · rw [eq] at moved
          have entered : m.enteredIn (.finish id) = [q.event trigger result] :=
            enteredIn_of_append (congrArg Manager.queue moved)
          have waiting : (m.finish id).waiting = m.waiting := (congrArg Manager.waiting moved :)
          simp [sent, leftWaitingIn, entered, droppedIn, waiting]
        · rw [eq] at moved
          have entered : m.enteredIn (.finish id) = [] := enteredIn_of_queue (by rw [moved]; rfl)
          have waiting : (m.finish id).waiting = m.waiting ++ [q.event trigger result] :=
            congrArg Manager.waiting moved
          rw [sent, leftWaitingIn, entered, waiting]
          exact List.perm_append_comm
    | _ =>
      have same : m.move (.finish id) = m := by simp [move, finish, found, phase]
      have entered := enteredIn_of_queue (congrArg Manager.queue same)
      have waiting : (m.finish id).waiting = m.waiting := congrArg Manager.waiting same
      simp [sentIn, completedIn, found, phase, leftWaitingIn, entered, droppedIn, waiting]

private theorem waiting_enter (id : Nat) :
    m.waiting.Perm (m.leftWaitingIn (.enter id) ++ (m.enter id).waiting) := by
  rcases enter_cases m id with ⟨e, found, _, _, moved⟩ | still
  · have entered : m.enteredIn (.enter id) = [e] :=
      enteredIn_of_append (congrArg Manager.queue moved)
    rw [leftWaitingIn, entered, moved]
    exact perm_cons_eraseP found
  · have entered := enteredIn_of_queue (v := .enter id) (congrArg Manager.queue still)
    rw [leftWaitingIn, entered, still]
    exact List.Perm.refl _

private theorem waiting_untrack (document : Path) :
    m.waiting.Perm (m.leftWaitingIn (.untrack document) ++ (m.untrack document).waiting) := by
  have entered : m.enteredIn (.untrack document) = [] :=
    enteredIn_of_queue (untrack_queue m document)
  cases found : m.tracked.find? document with
  | none =>
    simp only [leftWaitingIn, entered, droppedIn, untrack, found]
    exact List.Perm.refl _
  | some t =>
    simp only [leftWaitingIn, entered, droppedIn, untrack, found]
    exact (List.filter_append_perm _ _).symm

/-- In a move no result comes from nowhere, and none is lost. -/
theorem waiting_move (m : Manager) (v : Move) :
    (m.sentIn v ++ m.waiting).Perm (m.leftWaitingIn v ++ (m.move v).waiting) := by
  have quiet : ∀ {v : Move}, m.sentIn v = [] → (m.move v).queue = m.queue →
      m.droppedIn v = [] → (m.move v).waiting = m.waiting →
      (m.sentIn v ++ m.waiting).Perm (m.leftWaitingIn v ++ (m.move v).waiting) := by
    intro v sent queue dropped waiting
    rw [sent, leftWaitingIn, enteredIn_of_queue queue, dropped, waiting]
    exact List.Perm.refl _
  cases v with
  | request document =>
    obtain ⟨queue, waiting⟩ := request_queues m document
    exact quiet rfl queue rfl waiting
  | untrack document => exact waiting_untrack document
  | next =>
    cases queued : m.queue with
    | nil =>
      have same : m.next = m := by simp [next, queued]
      exact quiet rfl (congrArg Manager.queue same) rfl (congrArg Manager.waiting same)
    | cons e rest =>
      obtain ⟨queue, waiting, _, _⟩ := handle_queues { m with queue := rest } e
      have entered : m.enteredIn .next = [] := by
        simp [enteredIn, move, next_of_queue queued, queue, queued]
      have left : (m.move .next).waiting = m.waiting := by
        rw [move, next_of_queue queued, waiting]
      rw [leftWaitingIn, entered, left]
      exact List.Perm.refl _
  | shutdown =>
    have entered : m.enteredIn .shutdown = [] := List.drop_nil
    rw [leftWaitingIn, entered]
    simp [sentIn, completedIn, droppedIn, move, shutdown]
  | finish id => exact waiting_finish id
  | enter id => exact waiting_enter id
  | _ => exact quiet rfl rfl rfl rfl

/-- Results leave the queue at its front, or one enters at its end if there is room. -/
theorem queue_cases (m : Manager) (v : Move) : m.queue = m.takenIn v ++ (m.move v).queue ∨
    m.takenIn v = [] ∧ ∃ e, m.queue.length < queueCapacity ∧ (m.move v).queue = m.queue ++ [e] := by
  cases v with
  | request document => exact Or.inl (request_queues m document).1.symm
  | untrack document => exact Or.inl (untrack_queue m document).symm
  | next =>
    refine Or.inl ?_
    cases queued : m.queue with
    | nil => simp [takenIn, handledIn, drainedIn, move, next, queued]
    | cons e rest =>
      have queue := (handle_queues { m with queue := rest } e).1
      simp [takenIn, handledIn, drainedIn, move, next_of_queue queued, queue, queued]
  | shutdown => exact Or.inl (List.append_nil _).symm
  | finish id =>
    simp only [move]
    unfold finish
    split
    · exact Or.inl rfl
    · split
      · rename_i q _ _ trigger result _ _
        rcases send_cases m (q.event trigger result) with ⟨room, _, eq⟩ | eq
        · rw [eq]
          exact Or.inr ⟨rfl, _, room, rfl⟩
        · rw [eq]
          exact Or.inl rfl
      · exact Or.inl rfl
      · exact Or.inl rfl
  | enter id =>
    rcases enter_cases m id with ⟨e, _, _, room, moved⟩ | still
    · exact Or.inr ⟨rfl, e, room, congrArg Manager.queue moved⟩
    · exact Or.inl (congrArg Manager.queue still).symm
  | _ => exact Or.inl rfl

theorem enteredIn_of_taken {v : Move} (shorter : m.queue = m.takenIn v ++ (m.move v).queue) :
    m.enteredIn v = [] := by
  rw [enteredIn, shorter]
  simp

/-- The queue hands out the results in the order in which they entered it. -/
private theorem queue_move (m : Manager) (v : Move) :
    m.queue ++ m.enteredIn v = m.takenIn v ++ (m.move v).queue := by
  rcases queue_cases m v with shorter | ⟨none, e, _, longer⟩
  · rw [enteredIn_of_taken shorter, List.append_nil, ← shorter]
  · rw [enteredIn_of_append longer, none, longer, List.nil_append]

/-! ### Histories -/

theorem Registered.begun_perm (reg : m.Registered) (history : List Act) :
    (m.begun history ++ m.flights).Perm ((m.completed history).map Prod.fst ++
      m.crashed history ++ m.cancelled history ++ (m.after history).flights) := by
  have conserved := @log_conserved _ begunIn overIn flights Registered
    (fun _ v reg => Registered.move reg v) (fun _ v reg => flights_move reg v) m reg
    (m.movesOf history)
  rw [← after_eq_moves] at conserved
  refine conserved.trans (List.Perm.append_right _ ?_)
  have given_up := log_perm_append (fun m v => (m.completedIn v).map Prod.fst ++ m.crashedIn v)
    cancelledIn m (m.movesOf history)
  have ended := log_perm_append (fun m v => (m.completedIn v).map Prod.fst) crashedIn m
    (m.movesOf history)
  rw [log_map] at ended
  exact given_up.trans (ended.append_right _)

theorem sent_eq (m : Manager) (history : List Act) :
    m.sent history = (m.completed history).map fun c => c.1.event c.2 :=
  log_map completedIn (fun c => c.1.event c.2) m (m.movesOf history)

theorem sent_perm (m : Manager) (history : List Act) :
    (m.sent history ++ m.waiting).Perm
      (m.entered history ++ m.dropped history ++ (m.after history).waiting) := by
  have conserved := @log_conserved _ sentIn leftWaitingIn waiting (fun _ => True)
    (fun _ _ _ => trivial) (fun m v _ => waiting_move m v) m trivial (m.movesOf history)
  rw [← after_eq_moves] at conserved
  exact conserved.trans ((log_perm_append enteredIn droppedIn m _).append_right _)

/-- The queue is first in, first out. -/
theorem entered_eq (m : Manager) (history : List Act) :
    m.queue ++ m.entered history = m.taken history ++ (m.after history).queue := by
  have run : ∀ (moves : List Move) (m : Manager),
      m.queue ++ m.log enteredIn moves =
        m.log takenIn moves ++ (moves.foldl move m).queue := by
    intro moves
    induction moves with
    | nil => exact fun m => List.append_nil _
    | cons v rest ih =>
      intro m
      rw [log, log, List.foldl_cons, List.append_assoc, ← ih, ← List.append_assoc, queue_move,
        List.append_assoc]
  rw [after_eq_moves]
  exact run _ m

theorem taken_perm (m : Manager) (history : List Act) :
    (m.taken history).Perm ((m.handled history).map Prod.snd ++ m.drained history) := by
  have parts := log_perm_append (fun m v => (m.handledIn v).map Prod.snd) drainedIn m
    (m.movesOf history)
  rw [log_map] at parts
  exact parts

end Manager

end ModBench
