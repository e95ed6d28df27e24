import Mathlib.Data.List.Basic
import ModBench.Lint.Ledger
import ModBench.Proofs.Lint.Lane

/-!
Turnover of pipelines.  Here stands once all that a move can do to the pipeline registered for a
document, together with what the ledger notes of it.
-/

set_option autoImplicit false
set_option relaxedAutoImplicit false

namespace ModBench

/-- What a move notes in the ledger about one pipeline. -/
structure Notes where
  triggers : List Trigger := []
  begun : List Flight := []
  crashed : List Flight := []
  sent : List Event := []
  entered : List Event := []

namespace Pipeline

/-- What a move does to a pipeline that stays registered. -/
inductive Change : Pipeline → Notes → Pipeline → Prop
  | stay (p : Pipeline) : Change p {} p
  | post {p : Pipeline} (trigger : Trigger) : p.isAlive = true →
      Change p { triggers := [trigger] } (p.post trigger)
  | receive (p : Pipeline) (now : Nat) : Change p {} (p.receive now)
  | begin {p : Pipeline} {trigger : Trigger} {due : Nat} (run : Run) (now : Nat) :
      p.phase = .debouncing trigger due →
      Change p { begun := [{ p with generation := p.generation + 1 }.flight trigger] }
        (p.begin run now)
  | send {p : Pipeline} {trigger : Trigger} {result : LintResult} {ends : Nat} :
      p.phase = .running trigger (.result result) ends →
      Change p { sent := [p.event trigger result], entered := [p.event trigger result] }
        { p with phase := .idle }
  | block {p : Pipeline} {trigger : Trigger} {result : LintResult} {ends : Nat} :
      p.phase = .running trigger (.result result) ends →
      Change p { sent := [p.event trigger result] } { p with phase := .blocked }
  | crash {p : Pipeline} {trigger : Trigger} {ends : Nat} :
      p.phase = .running trigger .crash ends →
      Change p { crashed := [p.flight trigger] } { p with phase := .ended }
  | resume {p : Pipeline} {e : Event} : e.pipeline = p.id → Change p { entered := [e] } p.resume

namespace Change

variable {p p' : Pipeline} {n : Notes}

theorem keeps (change : p.Change n p') :
    p'.id = p.id ∧ p'.document = p.document ∧ p'.settings = p.settings := by
  cases change with
  | receive now =>
    unfold Pipeline.receive
    split <;> exact ⟨rfl, rfl, rfl⟩
  | begin run now phase =>
    simp only [Pipeline.begin, phase]
    exact ⟨trivial, trivial, trivial⟩
  | resume named =>
    unfold Pipeline.resume
    split <;> exact ⟨rfl, rfl, rfl⟩
  | _ => exact ⟨rfl, rfl, rfl⟩

/-- The runs of a pipeline are counted as they are begun. -/
theorem generation (change : p.Change n p') :
    p'.generation = p.generation + n.begun.length := by
  cases change with
  | receive now =>
    unfold Pipeline.receive
    split <;> rfl
  | begin run now phase => simp [Pipeline.begin, phase]
  | resume named =>
    unfold Pipeline.resume
    split <;> rfl
  | _ => rfl

end Change

end Pipeline

namespace Manager

def notes (m : Manager) (v : Move) (p : Path) (id : Nat) : Notes where
  triggers := triggersFor p m v
  begun := (m.begunIn v).filter fun f => f.pipeline == id
  crashed := (m.crashedIn v).filter fun f => f.pipeline == id
  sent := (m.sentIn v).filter fun e => e.pipeline == id
  entered := (m.enteredIn v).filter fun e => e.pipeline == id

/-- All that can become of the pipeline registered for a document in a move. -/
inductive Turnover (m : Manager) (v : Move) (p : Path) : Option Tracked → Option Tracked → Prop
  | absent : triggersFor p m v = [] → Turnover m v p none none
  | closed {t : Tracked} : t.pipeline.id ∈ m.closedIn v → Turnover m v p (some t) none
  | fresh {before : Option Tracked} {document : Path} {trigger : Trigger} :
      p.same document = true → (∀ t, before = some t → t.pipeline.isAlive = false) →
      triggersFor p m v = [trigger] → (m.newcomer document trigger).pipeline ∈ m.spawnedIn v →
      Turnover m v p before (some (m.newcomer document trigger))
  | change {t t' : Tracked} : t.pipeline.Change (m.notes v p t.pipeline.id) t'.pipeline →
      Turnover m v p (some t) (some t')

variable {m : Manager} {v : Move} {p : Path}

/-! ### What is noted -/

/-- A lint run is begun where a debounce window is open, as the next of its pipeline. -/
theorem begunIn_cases (m : Manager) (v : Move) : m.begunIn v = [] ∨
    ∃ id run now q trigger due, v = .begin id run now ∧ m.pipeline? id = some q ∧
      q.phase = .debouncing trigger due ∧
      m.begunIn v = [{ q with generation := q.generation + 1 }.flight trigger] := by
  cases v with
  | begin id run now =>
    simp only [begunIn]
    split
    · exact Or.inl rfl
    · rename_i q found
      split
      · rename_i trigger due phase
        exact Or.inr ⟨id, run, now, q, trigger, due, rfl, found, phase, rfl⟩
      · exact Or.inl rfl
  | _ => exact Or.inl rfl

theorem mem_begunIn {f : Flight} (mem : f ∈ m.begunIn v) :
    ∃ id run now q trigger due, v = .begin id run now ∧ m.pipeline? id = some q ∧
      q.phase = .debouncing trigger due ∧
      f = { q with generation := q.generation + 1 }.flight trigger := by
  rcases begunIn_cases m v with none | ⟨id, run, now, q, trigger, due, eq, found, phase, one⟩
  · rw [none] at mem
    cases mem
  · rw [one, List.mem_singleton] at mem
    exact ⟨id, run, now, q, trigger, due, eq, found, phase, mem⟩

/-! ### The queue -/

theorem request_queues (m : Manager) (document : Path) :
    (m.request document).queue = m.queue ∧ (m.request document).waiting = m.waiting := by
  unfold request
  dsimp only
  split
  · exact ⟨rfl, rfl⟩
  · split <;> exact ⟨rfl, rfl⟩

theorem untrack_queue (m : Manager) (document : Path) :
    (m.untrack document).queue = m.queue := by
  unfold untrack
  split <;> rfl

theorem enteredIn_of_queue (same : (m.move v).queue = m.queue) : m.enteredIn v = [] := by
  rw [enteredIn, same, List.drop_length]

theorem enteredIn_of_append {events : List Event} (more : (m.move v).queue = m.queue ++ events) :
    m.enteredIn v = events := by
  rw [enteredIn, more, List.drop_left]

/-- A result is sent into the queue, or to those that wait for room. -/
theorem send_cases (m : Manager) (e : Event) :
    (m.queue.length < queueCapacity ∧ m.waiting = [] ∧ m.send e =
        { m.updateById e.pipeline fun p => { p with phase := .idle } with
          queue := m.queue ++ [e] }) ∨
      m.send e =
        { m.updateById e.pipeline fun p => { p with phase := .blocked } with
          waiting := m.waiting ++ [e] } := by
  unfold send
  split
  · rename_i room
    rw [Bool.and_eq_true, decide_eq_true_eq, List.isEmpty_iff] at room
    exact Or.inl ⟨room.1, room.2, rfl⟩
  · exact Or.inr rfl

/-- The result that waits for a pipeline enters the queue, or nothing happens. -/
theorem enter_cases (m : Manager) (id : Nat) :
    (∃ e, m.waiting.find? (fun e => e.pipeline == id) = some e ∧ e.pipeline = id ∧
        m.queue.length < queueCapacity ∧ m.enter id =
          { m.updateById id Pipeline.resume with
            queue := m.queue ++ [e]
            waiting := m.waiting.eraseP fun e => e.pipeline == id }) ∨
      m.enter id = m := by
  unfold enter
  split
  · exact Or.inr rfl
  · rename_i e found
    split
    · rename_i room
      exact Or.inl ⟨e, found, by simpa using List.find?_some found, room, rfl⟩
    · exact Or.inr rfl

/-! ### One move -/

/-- A move that does nothing to a document's pipeline and notes nothing about it. -/
theorem turnover_stay (same : (m.move v).registered? p = m.registered? p)
    (triggers : triggersFor p m v = [])
    (notes : ∀ t, m.registered? p = some t → m.notes v p t.pipeline.id = {}) :
    m.Turnover v p (m.registered? p) ((m.move v).registered? p) := by
  rw [same]
  cases here : m.registered? p with
  | none => exact .absent triggers
  | some t =>
    refine .change ?_
    rw [notes t here]
    exact .stay _

/-- A move that changes one pipeline and notes nothing about the others. -/
theorem turnover_update {id : Nat} {f : Pipeline → Pipeline}
    (same : (m.move v).registered? p = (m.updateById id f).registered? p)
    (triggers : triggersFor p m v = [])
    (own : ∀ t, m.registered? p = some t → t.pipeline.id = id →
      t.pipeline.Change (m.notes v p id) (f t.pipeline))
    (other : ∀ t, m.registered? p = some t → t.pipeline.id ≠ id →
      m.notes v p t.pipeline.id = {}) :
    m.Turnover v p (m.registered? p) ((m.move v).registered? p) := by
  rw [same, registered?_updateById]
  cases here : m.registered? p with
  | none => exact .absent triggers
  | some t =>
    rw [Option.map_some]
    refine .change ?_
    by_cases named : t.pipeline.id = id
    · rw [if_pos named, named]
      exact own t here named
    · rw [if_neg named, other t here named]
      exact .stay _

private theorem notes_request (document : Path) (id : Nat) : m.notes (.request document) p id =
    { triggers := triggersFor p m (.request document) } := by
  have entered : m.enteredIn (.request document) = [] :=
    enteredIn_of_queue (request_queues m document).1
  simp [notes, begunIn, crashedIn, sentIn, completedIn, entered]

theorem turnover_request (reg : m.Registered) (document : Path) :
    m.Turnover (.request document) p (m.registered? p) ((m.request document).registered? p) := by
  cases same : p.same document with
  | false =>
    have triggers := triggersFor_request_of_not_same m same
    refine turnover_stay (registered?_request_of_apart reg same) triggers ?_
    intro t _
    rw [notes_request, triggers]
  | true =>
    have triggers := triggersFor_request_of_same m same
    have sorted : PathMap.Sorted { m with requests := m.requests + 1 }.tracked := reg.sorted
    rw [registered?_congr same m]
    unfold request
    dsimp only
    split
    · rename_i absent
      rw [registered?_spawn_of_same sorted same]
      refine .fresh same ?_ triggers ?_
      · intro t here
        rw [registered?, absent] at here
        cases here
      · simp only [spawnedIn, absent, List.mem_singleton]
    · rename_i t here
      have found : m.registered? document = some t := here
      split
      · rename_i alive
        have own : { m with requests := m.requests + 1 }.registered? p = some t :=
          (registered?_congr same m).trans found
        rw [found, registered?_updateById_of_id own]
        refine .change ?_
        rw [notes_request, triggers]
        exact .post _ alive
      · rename_i dead
        rw [registered?_spawn_of_same sorted same]
        refine .fresh same ?_ triggers ?_
        · intro u there
          rw [found] at there
          cases there
          exact Bool.eq_false_iff.2 dead
        · simp [spawnedIn, here, dead, newcomer]

private theorem turnover_untrack (document : Path) :
    m.Turnover (.untrack document) p (m.registered? p) ((m.untrack document).registered? p) := by
  cases same : p.same document with
  | false =>
    refine turnover_stay (registered?_untrack_of_not_same m same) rfl ?_
    intro t _
    have entered : m.enteredIn (.untrack document) = [] :=
      enteredIn_of_queue (untrack_queue m document)
    simp [notes, begunIn, crashedIn, sentIn, completedIn, entered, triggersFor, triggerIn]
  | true =>
    rw [registered?_untrack_of_same m same]
    cases here : m.registered? p with
    | none => exact .absent rfl
    | some t =>
      have found : m.tracked.find? document = some t := (registered?_congr same m).symm.trans here
      exact .closed (by simp [closedIn, found])

/-- Handling results does not touch the pipelines. -/
private theorem turnover_next : m.Turnover .next p (m.registered? p) (m.next.registered? p) := by
  have quiet : ∀ id, m.notes .next p id = {} := by
    intro id
    have entered : m.enteredIn .next = [] := by
      cases queued : m.queue with
      | nil =>
        have same : m.next = m := by simp [next, queued]
        exact enteredIn_of_queue (congrArg Manager.queue same)
      | cons e rest =>
        have queue := (handle_queues { m with queue := rest } e).1
        simp [enteredIn, move, next_of_queue queued, queue, queued]
    simp [notes, begunIn, crashedIn, sentIn, completedIn, entered, triggersFor, triggerIn]
  have pipelines : (m.next.registered? p).map Tracked.pipeline =
      (m.registered? p).map Tracked.pipeline := by
    cases queued : m.queue with
    | nil => simp [next, queued]
    | cons e rest =>
      rw [next_of_queue queued]
      have before : { m with queue := rest }.registered? p = m.registered? p := rfl
      cases same : p.same e.document with
      | false => rw [registered?_handle_of_not_same _ e same, before]
      | true =>
        rw [registered?_handle_of_same _ e same, before]
        split
        · rw [Option.map_map]
          rfl
        · rfl
  cases here : m.registered? p with
  | none =>
    rw [here, Option.map_none, Option.map_eq_none_iff] at pipelines
    rw [pipelines]
    exact .absent rfl
  | some t =>
    rw [here, Option.map_some] at pipelines
    obtain ⟨t', there, same⟩ := Option.map_eq_some_iff.1 pipelines
    rw [there]
    refine .change ?_
    rw [same, quiet]
    exact .stay _

private theorem turnover_shutdown :
    m.Turnover .shutdown p (m.registered? p) (m.shutdown.registered? p) := by
  have gone : m.shutdown.registered? p = none := rfl
  rw [gone]
  cases here : m.registered? p with
  | none => exact .absent rfl
  | some t =>
    obtain ⟨q, _, mem⟩ := PathMap.exists_mem_of_find? here
    refine .closed (List.mem_map_of_mem ?_)
    exact List.mem_map.2 ⟨(q, t), mem, rfl⟩

theorem notes_of_idle (m : Manager) (p : Path) (id : Nat) {v : Move}
    (queue : (m.move v).queue = m.queue) (triggers : triggersFor p m v = [])
    (begun : m.begunIn v = []) (crashed : m.crashedIn v = []) (sent : m.sentIn v = []) :
    m.notes v p id = {} := by
  simp [notes, triggers, begun, crashed, sent, enteredIn_of_queue queue]

private theorem turnover_receive (id now : Nat) :
    m.Turnover (.receive id now) p (m.registered? p) ((m.receive id now).registered? p) := by
  have quiet : ∀ id', m.notes (.receive id now) p id' = {} :=
    fun id' => notes_of_idle m p id' rfl rfl rfl rfl rfl
  refine turnover_update (f := fun p => p.receive now) rfl rfl ?_ fun t _ _ => quiet _
  intro t _ _
  rw [quiet]
  exact .receive _ now

private theorem turnover_begin (reg : m.Registered) (id : Nat) (run : Run) (now : Nat) :
    m.Turnover (.begin id run now) p (m.registered? p) ((m.begin id run now).registered? p) := by
  have entered : m.enteredIn (.begin id run now) = [] := enteredIn_of_queue rfl
  refine turnover_update (f := fun p => p.begin run now) rfl rfl ?_ ?_
  · rintro t here rfl
    have found := reg.pipeline?_eq here
    cases phase : t.pipeline.phase with
    | debouncing trigger due =>
      have noted : m.notes (.begin t.pipeline.id run now) p t.pipeline.id =
          { begun := [{ t.pipeline with generation := t.pipeline.generation + 1 }.flight
              trigger] } := by
        simp [notes, triggersFor, triggerIn, begunIn, found, phase, crashedIn, sentIn,
          completedIn, entered, Pipeline.flight]
      rw [noted]
      exact .begin run now phase
    | _ =>
      have still : t.pipeline.begin run now = t.pipeline := by simp [Pipeline.begin, phase]
      rw [still, notes_of_idle m p _ rfl rfl (by simp [begunIn, found, phase]) rfl rfl]
      exact .stay _
  · intro t here other
    have unnoted : (m.begunIn (.begin id run now)).filter
        (fun f => f.pipeline == t.pipeline.id) = [] := by
      rw [List.filter_eq_nil_iff]
      intro f mem
      obtain ⟨_, _, _, q, _, _, ⟨⟩, found, _, rfl⟩ := mem_begunIn mem
      have named : q.id = id := by simpa using List.find?_some found
      simp only [Pipeline.flight, beq_iff_eq, named]
      exact Ne.symm other
    simp [notes, unnoted, entered, triggersFor, triggerIn, crashedIn, sentIn, completedIn]

/-- A run that ends changes its own pipeline as noted, and all that is noted is about that one. -/
theorem turnover_of_finish (reg : m.Registered) {d : Path} {u : Tracked}
    (there : m.registered? d = some u) {f : Pipeline → Pipeline}
    (same : (m.finish u.pipeline.id).registered? p = (m.updateById u.pipeline.id f).registered? p)
    {flights : List Flight} {sent entered : List Event}
    (crashed : m.crashedIn (.finish u.pipeline.id) = flights)
    (sends : m.sentIn (.finish u.pipeline.id) = sent)
    (enters : m.enteredIn (.finish u.pipeline.id) = entered)
    (own : (∀ g ∈ flights, g.pipeline = u.pipeline.id) ∧
      (∀ e ∈ sent, e.pipeline = u.pipeline.id) ∧ ∀ e ∈ entered, e.pipeline = u.pipeline.id)
    (change : u.pipeline.Change { crashed := flights, sent := sent, entered := entered }
      (f u.pipeline)) :
    m.Turnover (.finish u.pipeline.id) p (m.registered? p)
      ((m.finish u.pipeline.id).registered? p) := by
  obtain ⟨ownFlights, ownSent, ownEntered⟩ := own
  refine turnover_update same rfl ?_ ?_
  · intro t here ids
    obtain rfl := reg.unique here there ids
    have noted : m.notes (.finish t.pipeline.id) p t.pipeline.id =
        { crashed := flights, sent := sent, entered := entered } := by
      simp +contextual [notes, triggersFor, triggerIn, begunIn, crashed, sends, enters,
        ownFlights, ownSent, ownEntered]
    rw [noted]
    exact change
  · intro t _ other
    simp +contextual [notes, triggersFor, triggerIn, begunIn, crashed, sends, enters, ownFlights,
      ownSent, ownEntered, Ne.symm other]

private theorem turnover_crash (reg : m.Registered) {d : Path} {u : Tracked}
    (there : m.registered? d = some u) (found : m.pipeline? u.pipeline.id = some u.pipeline)
    {trigger : Trigger} {ends : Nat} (phase : u.pipeline.phase = .running trigger .crash ends) :
    m.Turnover (.finish u.pipeline.id) p (m.registered? p)
      ((m.finish u.pipeline.id).registered? p) := by
  have moved : m.finish u.pipeline.id =
      m.updateById u.pipeline.id fun p => { p with phase := .ended } := by
    simp [finish, found, phase]
  have crashed : m.crashedIn (.finish u.pipeline.id) = [u.pipeline.flight trigger] := by
    simp [crashedIn, found, phase]
  have sent : m.sentIn (.finish u.pipeline.id) = [] := by
    simp [sentIn, completedIn, found, phase]
  have entered : m.enteredIn (.finish u.pipeline.id) = [] :=
    enteredIn_of_queue (by rw [move, moved]; rfl)
  exact turnover_of_finish reg there (congrArg (fun n => n.registered? p) moved) crashed sent
    entered (by simp [Pipeline.flight]) (.crash phase)

/-- A run with a result sends it: it enters the queue, or its pipeline waits for room. -/
private theorem turnover_result (reg : m.Registered) {d : Path} {u : Tracked}
    (there : m.registered? d = some u) (found : m.pipeline? u.pipeline.id = some u.pipeline)
    {trigger : Trigger} {result : LintResult} {ends : Nat}
    (phase : u.pipeline.phase = .running trigger (.result result) ends) :
    m.Turnover (.finish u.pipeline.id) p (m.registered? p)
      ((m.finish u.pipeline.id).registered? p) := by
  have moved : m.finish u.pipeline.id = m.send (u.pipeline.event trigger result) := by
    simp [finish, found, phase]
  have crashed : m.crashedIn (.finish u.pipeline.id) = [] := by simp [crashedIn, found, phase]
  have sent : m.sentIn (.finish u.pipeline.id) = [u.pipeline.event trigger result] := by
    simp [sentIn, completedIn, found, phase, Flight.event, Pipeline.flight, Pipeline.event]
  rcases send_cases m (u.pipeline.event trigger result) with ⟨_, _, eq⟩ | eq
  · rw [eq] at moved
    have entered : m.enteredIn (.finish u.pipeline.id) = [u.pipeline.event trigger result] :=
      enteredIn_of_append (congrArg Manager.queue moved)
    exact turnover_of_finish (f := fun p => { p with phase := .idle }) reg there
      (congrArg (fun n => n.registered? p) moved) crashed sent entered (by simp [Pipeline.event])
      (.send phase)
  · rw [eq] at moved
    have entered : m.enteredIn (.finish u.pipeline.id) = [] :=
      enteredIn_of_queue (by rw [move, moved]; rfl)
    exact turnover_of_finish (f := fun p => { p with phase := .blocked }) reg there
      (congrArg (fun n => n.registered? p) moved) crashed sent entered (by simp [Pipeline.event])
      (.block phase)

/-- Where no run ends, the manager stays as it is. -/
private theorem turnover_finish_idle (id : Nat) (still : m.finish id = m)
    (crashed : m.crashedIn (.finish id) = []) (sent : m.sentIn (.finish id) = []) :
    m.Turnover (.finish id) p (m.registered? p) ((m.finish id).registered? p) := by
  refine turnover_stay (congrArg (fun n => n.registered? p) still) rfl ?_
  intro t _
  exact notes_of_idle m p _ (congrArg Manager.queue still) rfl rfl crashed sent

private theorem turnover_finish (reg : m.Registered) (id : Nat) :
    m.Turnover (.finish id) p (m.registered? p) ((m.finish id).registered? p) := by
  cases found : m.pipeline? id with
  | none =>
    exact turnover_finish_idle id (by simp [finish, found]) (by simp [crashedIn, found])
      (by simp [sentIn, completedIn, found])
  | some q =>
    obtain ⟨d, u, there, rfl, rfl⟩ := pipeline?_eq_some reg.sorted found
    cases phase : u.pipeline.phase with
    | running trigger ending ends =>
      cases ending with
      | crash => exact turnover_crash reg there found phase
      | result result => exact turnover_result reg there found phase
    | _ =>
      exact turnover_finish_idle _ (by simp [finish, found, phase])
        (by simp [crashedIn, found, phase]) (by simp [sentIn, completedIn, found, phase])

private theorem turnover_enter (id : Nat) :
    m.Turnover (.enter id) p (m.registered? p) ((m.enter id).registered? p) := by
  rcases enter_cases m id with ⟨e, _, named, _, moved⟩ | still
  · have entered : m.enteredIn (.enter id) = [e] :=
      enteredIn_of_append (congrArg Manager.queue moved)
    refine turnover_update (f := Pipeline.resume)
      (congrArg (fun n => n.registered? p) moved) rfl ?_ ?_
    · intro t _ ids
      have noted : m.notes (.enter id) p id = { entered := [e] } := by
        simp [notes, triggersFor, triggerIn, begunIn, crashedIn, sentIn, completedIn, entered,
          named]
      rw [noted]
      exact .resume (named.trans ids.symm)
    · intro t _ other
      have foreign : e.pipeline ≠ t.pipeline.id := fun same => other (same.symm.trans named)
      simp [notes, triggersFor, triggerIn, begunIn, crashedIn, sentIn, completedIn, entered,
        foreign]
  · refine turnover_stay (congrArg (fun n => n.registered? p) still) rfl ?_
    intro t _
    exact notes_of_idle m p _ (congrArg Manager.queue still) rfl rfl rfl rfl

/-- In every move each document's pipeline takes one of its turns. -/
theorem turnover_of_move (reg : m.Registered) (v : Move) (p : Path) :
    m.Turnover v p (m.registered? p) ((m.move v).registered? p) := by
  cases v with
  | request document => exact turnover_request reg document
  | untrack document => exact turnover_untrack document
  | next => exact turnover_next
  | shutdown => exact turnover_shutdown
  | receive id now => exact turnover_receive id now
  | begin id run now => exact turnover_begin reg id run now
  | finish id => exact turnover_finish reg id
  | enter id => exact turnover_enter id
  | _ => exact turnover_stay rfl rfl fun t _ => notes_of_idle m p _ rfl rfl rfl rfl rfl

/-- A pipeline that is up stays registered if it is not closed. -/
theorem Registered.change_of_alive (reg : m.Registered) {t : Tracked}
    (here : m.registered? p = some t) (alive : t.pipeline.isAlive = true)
    (open_still : t.pipeline.id ∉ m.closedIn v) :
    ∃ t', (m.move v).registered? p = some t' ∧
      t.pipeline.Change (m.notes v p t.pipeline.id) t'.pipeline := by
  have turnover := turnover_of_move reg v p
  rw [here] at turnover
  generalize (m.move v).registered? p = after at turnover
  cases turnover with
  | closed closed => exact absurd closed open_still
  | fresh same dead =>
    rw [dead t rfl] at alive
    cases alive
  | @change _ t' change => exact ⟨t', rfl, change⟩

/-- A pipeline that is registered after a move is new or was registered before. -/
theorem Registered.newcomer_or_change (reg : m.Registered) {t' : Tracked}
    (there : (m.move v).registered? p = some t') :
    (∃ document trigger, t' = m.newcomer document trigger ∧ triggersFor p m v = [trigger] ∧
      t'.pipeline ∈ m.spawnedIn v) ∨
      ∃ t, m.registered? p = some t ∧
        t.pipeline.Change (m.notes v p t.pipeline.id) t'.pipeline := by
  have turnover := turnover_of_move reg v p
  rw [there] at turnover
  generalize m.registered? p = before at turnover
  cases turnover with
  | fresh _ _ given made => exact Or.inl ⟨_, _, rfl, given, made⟩
  | @change t _ change => exact Or.inr ⟨t, rfl, change⟩

end Manager

end ModBench
