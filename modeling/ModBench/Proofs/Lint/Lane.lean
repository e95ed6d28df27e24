import Mathlib.Data.List.Basic
import ModBench.Proofs.Lint.Registry

/-!
Lanes.  The lane of a document is its registered pipeline together with the events of that pipeline
which are queued or wait for room.  Here stands once all that a move can do to a lane.
-/

set_option autoImplicit false
set_option relaxedAutoImplicit false

namespace ModBench

/-- A registered pipeline and its events not handled yet, oldest first. -/
structure Lane where
  tracked : Tracked
  events : List Event

namespace Lane

def id (l : Lane) : Nat := l.tracked.pipeline.id

@[simp] theorem id_mk (t : Tracked) (events : List Event) :
    (Lane.mk t events).id = t.pipeline.id := rfl

def update (l : Lane) (f : Pipeline → Pipeline) : Lane :=
  { l with tracked := { l.tracked with pipeline := f l.tracked.pipeline } }

/-- What a move does to a lane that stays, with the triggers that it gives to the lane and the
events that it applies from it. -/
inductive Step : Lane → List Trigger → List Event → Lane → Prop
  | stay (l : Lane) : Step l [] [] l
  | post (l : Lane) (trigger : Trigger) : Step l [trigger] [] (l.update fun p => p.post trigger)
  | receive (l : Lane) (now : Nat) : Step l [] [] (l.update fun p => p.receive now)
  | begin (l : Lane) (run : Run) (now : Nat) : Step l [] [] (l.update fun p => p.begin run now)
  | finish {l : Lane} {trigger : Trigger} {result : LintResult} {ends : Nat} {phase : Phase} :
      l.tracked.pipeline.phase = .running trigger (.result result) ends →
      phase = .idle ∨ phase = .blocked →
      Step l [] [] { l.update fun p => { p with phase := phase } with
        events := l.events ++ [l.tracked.pipeline.event trigger result] }
  | crash (l : Lane) : Step l [] [] (l.update fun p => { p with phase := .ended })
  | resume (l : Lane) : Step l [] [] (l.update Pipeline.resume)
  | apply {t : Tracked} {e : Event} {rest : List Event} :
      t.pipeline.id = e.pipeline → t.applied ≤ e.generation →
      Step ⟨t, e :: rest⟩ [] [e] ⟨{ t with applied := e.generation }, rest⟩
  | drop (t : Tracked) (e : Event) (rest : List Event) : Step ⟨t, e :: rest⟩ [] [] ⟨t, rest⟩

end Lane

namespace Manager

/-- The events of a pipeline that are queued or wait for room, oldest first. -/
def eventsOf (m : Manager) (id : Nat) : List Event :=
  (m.queue ++ m.waiting).filter fun e => e.pipeline == id

def lane? (m : Manager) (p : Path) : Option Lane :=
  (m.registered? p).map fun t => ⟨t, m.eventsOf t.pipeline.id⟩

/-- All that can become of a document's lane in a move. -/
inductive Turn (m : Manager) (p : Path) : List Trigger → List Event → Option Lane → Prop
  | gone : Turn m p [] [] none
  | fresh {document : Path} (trigger : Trigger) : p.same document = true →
      (∀ t, m.registered? p = some t → t.pipeline.isAlive = false) →
      Turn m p [trigger] [] (some ⟨m.newcomer document trigger, []⟩)
  | step {l l' : Lane} {given : List Trigger} {applied : List Event} :
      m.lane? p = some l → l.Step given applied l' → Turn m p given applied (some l')

variable {m : Manager}

theorem turn_stay (m : Manager) (p : Path) : m.Turn p [] [] (m.lane? p) := by
  cases here : m.lane? p with
  | none => exact .gone
  | some l => exact .step here (.stay l)

theorem lane?_of_registered {p : Path} {t : Tracked} (h : m.registered? p = some t) :
    m.lane? p = some ⟨t, m.eventsOf t.pipeline.id⟩ := by
  rw [lane?, h, Option.map_some]

theorem registered_of_lane {p : Path} {l : Lane} (h : m.lane? p = some l) :
    m.registered? p = some l.tracked ∧ l.events = m.eventsOf l.id := by
  obtain ⟨t, here, rfl⟩ := Option.map_eq_some_iff.1 h
  exact ⟨here, rfl⟩

theorem lane?_update_requeue (m : Manager) (id : Nat) {f : Pipeline → Pipeline}
    (keeps : ∀ p, (f p).id = p.id) (queue waiting : List Event) (p : Path) :
    { m.updateById id f with queue := queue, waiting := waiting }.lane? p =
      (m.lane? p).map fun l =>
        { (if l.id = id then l.update f else l) with
          events := (queue ++ waiting).filter fun e => e.pipeline == l.id } := by
  have entries : { m.updateById id f with queue := queue, waiting := waiting }.registered? p =
      (m.updateById id f).registered? p := rfl
  rw [lane?, lane?, entries, registered?_updateById]
  cases m.registered? p with
  | none => rfl
  | some t =>
    by_cases named : t.pipeline.id = id
    · simp [named, keeps, eventsOf, Lane.update]
    · simp [named, eventsOf]

theorem lane?_updateById (m : Manager) (id : Nat) {f : Pipeline → Pipeline}
    (keeps : ∀ p, (f p).id = p.id) (p : Path) :
    (m.updateById id f).lane? p = (m.lane? p).map fun l => if l.id = id then l.update f else l := by
  refine (lane?_update_requeue m id keeps m.queue m.waiting p).trans ?_
  cases here : m.lane? p with
  | none => rfl
  | some l =>
    have events : (m.queue ++ m.waiting).filter (fun e => e.pipeline == l.id) = l.events :=
      (registered_of_lane here).2.symm
    simp only [Option.map_some, events]
    split <;> rfl

/-- A change of one pipeline that a lane can make is a turn of every lane. -/
theorem turn_update (m : Manager) (id : Nat) {f : Pipeline → Pipeline}
    (keeps : ∀ p, (f p).id = p.id) (step : ∀ l, Lane.Step l [] [] (l.update f)) (p : Path) :
    m.Turn p [] [] ((m.updateById id f).lane? p) := by
  rw [lane?_updateById m id keeps]
  cases here : m.lane? p with
  | none => exact .gone
  | some l =>
    rw [Option.map_some]
    split
    · exact .step here (step l)
    · exact .step here (.stay l)

/-! ### Requests -/

private theorem eventsOf_unknown (reg : m.Registered) {id : Nat} (new : m.lastId < id) :
    m.eventsOf id = [] := by
  apply List.filter_eq_nil_iff.2
  intro e mem
  have known := reg.event_le e mem
  simp only [beq_iff_eq]
  omega

private theorem lane?_spawn_of_same (reg : m.Registered) {p document : Path}
    (same : p.same document = true) (trigger : Trigger) :
    (m.spawn document trigger).lane? p = some ⟨m.newcomer document trigger, []⟩ := by
  rw [lane?_of_registered (registered?_spawn_of_same reg.sorted same trigger)]
  have none_yet : m.eventsOf (m.lastId + 1) = [] := eventsOf_unknown reg (Nat.lt_succ_self _)
  exact congrArg (fun events => some (Lane.mk (m.newcomer document trigger) events)) none_yet

private theorem lane?_spawn_of_not_same (m : Manager) {p document : Path}
    (apart : p.same document = false) (trigger : Trigger) :
    (m.spawn document trigger).lane? p = m.lane? p := by
  rw [lane?, registered?_spawn_of_not_same m apart]
  rfl

theorem triggersFor_request_of_same (m : Manager) {p document : Path}
    (same : p.same document = true) :
    triggersFor p m (.request document) = [m.nextTrigger document] := by
  simp [triggersFor, triggerIn, same]

theorem triggersFor_request_of_not_same (m : Manager) {p document : Path}
    (apart : p.same document = false) : triggersFor p m (.request document) = [] := by
  simp [triggersFor, triggerIn, apart]

private theorem turn_spawn (reg : m.Registered) {document : Path}
    (dead : ∀ t, m.registered? document = some t → t.pipeline.isAlive = false) (p : Path) :
    m.Turn p (triggersFor p m (.request document)) []
      ((m.spawn document (m.nextTrigger document)).lane? p) := by
  cases same : p.same document with
  | true =>
    rw [triggersFor_request_of_same m same, lane?_spawn_of_same reg same]
    refine .fresh _ same ?_
    rw [registered?_congr same]
    exact dead
  | false =>
    rw [triggersFor_request_of_not_same m same, lane?_spawn_of_not_same m same]
    exact turn_stay m p

private theorem turn_post (reg : m.Registered) {document : Path} {t : Tracked}
    (here : m.registered? document = some t) (p : Path) :
    m.Turn p (triggersFor p m (.request document)) []
      ((m.updateById t.pipeline.id fun p => p.post (m.nextTrigger document)).lane? p) := by
  rw [lane?_updateById m _ (f := fun p => p.post (m.nextTrigger document)) fun _ => rfl]
  cases same : p.same document with
  | true =>
    rw [triggersFor_request_of_same m same]
    rw [← registered?_congr same] at here
    rw [lane?_of_registered here, Option.map_some, if_pos (Lane.id_mk t _)]
    exact .step (lane?_of_registered here) (.post _ _)
  | false =>
    rw [triggersFor_request_of_not_same m same]
    cases lane : m.lane? p with
    | none => exact .gone
    | some l =>
      have other : l.id ≠ t.pipeline.id := by
        intro ids
        have := reg.id_inj (registered_of_lane lane).1 here ids
        rw [this] at same
        cases same
      rw [Option.map_some, if_neg other]
      exact .step lane (.stay l)

private theorem turn_request (reg : m.Registered) (document p : Path) :
    m.Turn p (triggersFor p m (.request document)) [] ((m.request document).lane? p) := by
  unfold request
  dsimp only
  split
  · rename_i absent
    refine turn_spawn reg ?_ p
    intro t here
    rw [registered?, absent] at here
    cases here
  · rename_i t here
    split
    · exact turn_post reg here p
    · rename_i dead
      refine turn_spawn reg ?_ p
      intro u there
      rw [registered?, here] at there
      cases there
      exact Bool.eq_false_iff.2 dead

/-! ### Other moves -/

private theorem turn_untrack (reg : m.Registered) (document p : Path) :
    m.Turn p [] [] ((m.untrack document).lane? p) := by
  cases same : p.same document with
  | true =>
    rw [lane?, registered?_untrack_of_same m same]
    exact .gone
  | false =>
    rw [lane?, registered?_untrack_of_not_same m same]
    cases here : m.registered? p with
    | none => exact .gone
    | some t =>
      have same_events :
          (m.untrack document).eventsOf t.pipeline.id = m.eventsOf t.pipeline.id := by
        unfold untrack
        split
        · rfl
        · rename_i u there
          have other : t.pipeline.id ≠ u.pipeline.id := by
            intro ids
            have := reg.id_inj here there ids
            rw [this] at same
            cases same
          -- Only events of the stopped pipeline leave.
          simp only [eventsOf, List.filter_append, List.filter_filter]
          congr 1
          apply List.filter_congr
          intro e _
          by_cases named : e.pipeline = t.pipeline.id
          · simp [named, other]
          · simp [named]
      rw [Option.map_some, same_events]
      exact .step (lane?_of_registered here) (.stay _)

theorem next_of_queue {e : Event} {rest : List Event} (queued : m.queue = e :: rest) :
    m.next = { m with queue := rest }.handle e := by
  simp [next, queued]

theorem appliedFor_next {e : Event} {rest : List Event} (queued : m.queue = e :: rest) (p : Path) :
    appliedFor p m .next =
      if { m with queue := rest }.accepts e && p.same e.document then [e] else [] := by
  simp only [appliedFor, appliedIn, handledIn, queued, List.filter_cons, List.filter_nil]
  cases { m with queue := rest }.accepts e with
  | true => simp [List.filter_cons]
  | false => rfl

theorem eventsOf_next {e : Event} {rest : List Event} (queued : m.queue = e :: rest) (id : Nat) :
    m.eventsOf id =
      if e.pipeline = id then e :: m.next.eventsOf id else m.next.eventsOf id := by
  obtain ⟨queue, waiting, _, _⟩ := handle_queues { m with queue := rest } e
  simp only [eventsOf, next_of_queue queued, queue, waiting, queued, List.cons_append,
    List.filter_cons, beq_iff_eq]

/-- An event that is not applied to a lane is dropped from it. -/
private theorem turn_pass {e : Event} {rest : List Event} (queued : m.queue = e :: rest) {p : Path}
    (unchanged : m.next.registered? p = m.registered? p) : m.Turn p [] [] (m.next.lane? p) := by
  rw [lane?, unchanged]
  cases here : m.registered? p with
  | none => exact .gone
  | some t =>
    refine .step (lane?_of_registered here) ?_
    rw [eventsOf_next queued]
    split
    · exact .drop t e _
    · exact .stay _

private theorem turn_apply {e : Event} {rest : List Event} (queued : m.queue = e :: rest) {p : Path}
    (same : p.same e.document = true) (accepted : { m with queue := rest }.accepts e = true) :
    m.Turn p [] [e] (m.next.lane? p) := by
  obtain ⟨t, here, ids, le⟩ := accepts_iff.1 accepted
  replace here : m.registered? p = some t := (registered?_congr same m).trans here
  have there : m.next.registered? p = some { t with applied := e.generation } := by
    rw [next_of_queue queued, registered?_handle_of_same _ e same, if_pos accepted]
    exact congrArg (Option.map _) here
  have before : m.lane? p = some ⟨t, e :: m.next.eventsOf t.pipeline.id⟩ := by
    rw [lane?_of_registered here, eventsOf_next queued, if_pos ids.symm]
  rw [lane?_of_registered there]
  exact .step before (.apply ids le)

private theorem turn_next (m : Manager) (p : Path) :
    m.Turn p [] (appliedFor p m .next) (m.next.lane? p) := by
  cases queued : m.queue with
  | nil =>
    have nothing : appliedFor p m .next = [] := by simp [appliedFor, appliedIn, handledIn, queued]
    have idle : m.next = m := by simp [next, queued]
    rw [nothing, idle]
    exact turn_stay m p
  | cons e rest =>
    rw [appliedFor_next queued]
    split
    · rename_i taken
      rw [Bool.and_eq_true] at taken
      exact turn_apply queued taken.2 taken.1
    · rename_i refused
      refine turn_pass queued ?_
      rw [next_of_queue queued]
      cases same : p.same e.document with
      | false => exact registered?_handle_of_not_same _ e same
      | true =>
        rw [registered?_handle_of_same _ e same, if_neg]
        · rfl
        · intro accepted
          exact refused (by rw [accepted, same]; rfl)

private theorem eventsOf_send (m : Manager) (e : Event) (id : Nat) :
    (m.send e).eventsOf id = if e.pipeline = id then m.eventsOf id ++ [e] else m.eventsOf id := by
  unfold send
  split
  · rename_i room
    rw [Bool.and_eq_true, List.isEmpty_iff] at room
    by_cases named : e.pipeline = id
    · simp [eventsOf, updateById, room.2, named]
    · simp [eventsOf, updateById, room.2, named]
  · by_cases named : e.pipeline = id
    · simp [eventsOf, updateById, named]
    · simp [eventsOf, updateById, named]

private theorem lane?_send (m : Manager) (e : Event) : ∃ phase : Phase,
    (phase = .idle ∨ phase = .blocked) ∧ ∀ p, (m.send e).lane? p =
      (m.lane? p).map fun l =>
        { (if l.id = e.pipeline then l.update fun p => { p with phase := phase } else l) with
          events := (m.send e).eventsOf l.id } := by
  unfold send
  split
  · refine ⟨.idle, Or.inl rfl, fun p => ?_⟩
    exact lane?_update_requeue m e.pipeline (f := fun p => { p with phase := .idle })
      (fun _ => rfl) _ _ p
  · refine ⟨.blocked, Or.inr rfl, fun p => ?_⟩
    exact lane?_update_requeue m e.pipeline (f := fun p => { p with phase := .blocked })
      (fun _ => rfl) _ _ p

private theorem turn_send (reg : m.Registered) {d : Path} {t : Tracked}
    (here : m.registered? d = some t) {trigger : Trigger} {result : LintResult} {ends : Nat}
    (phase : t.pipeline.phase = .running trigger (.result result) ends) (p : Path) :
    m.Turn p [] [] ((m.send (t.pipeline.event trigger result)).lane? p) := by
  obtain ⟨after, free, lanes⟩ := lane?_send m (t.pipeline.event trigger result)
  rw [lanes]
  cases lane : m.lane? p with
  | none => exact .gone
  | some l =>
    obtain ⟨there, events⟩ := registered_of_lane lane
    have named : (t.pipeline.event trigger result).pipeline = t.pipeline.id := rfl
    rw [Option.map_some, eventsOf_send, ← events, named]
    by_cases ids : l.id = t.pipeline.id
    · obtain rfl : l.tracked = t := reg.unique there here ids
      rw [if_pos ids, if_pos ids.symm]
      exact .step lane (.finish phase free)
    · rw [if_neg ids, if_neg (Ne.symm ids)]
      exact .step lane (.stay l)

private theorem turn_finish (reg : m.Registered) (id : Nat) (p : Path) :
    m.Turn p [] [] ((m.finish id).lane? p) := by
  unfold finish
  split
  · exact turn_stay m p
  · rename_i q found
    obtain ⟨d, t, here, rfl, rfl⟩ := pipeline?_eq_some reg.sorted found
    split
    · rename_i phase
      exact turn_send reg here phase p
    · exact turn_update m t.pipeline.id (f := fun p => { p with phase := .ended }) (fun _ => rfl)
        (fun l => .crash l) p
    · exact turn_stay m p

/-- Putting the oldest of the `named` events in front leaves the order of the `wanted` ones, if
these are among the named as soon as it is wanted itself. -/
private theorem filter_cons_eraseP {named wanted : Event → Bool} {e : Event} {events : List Event}
    (found : events.find? named = some e)
    (among : wanted e = true → ∀ d, wanted d = true → named d = true) :
    (e :: events.eraseP named).filter wanted = events.filter wanted := by
  induction events with
  | nil => cases found
  | cons d rest ih =>
    by_cases first : named d = true
    · rw [List.find?_cons_of_pos first] at found
      rw [List.eraseP_cons_of_pos first, Option.some.inj found]
    · rw [List.find?_cons_of_neg first] at found
      rw [List.eraseP_cons_of_neg first]
      have ih := ih found
      by_cases own : wanted e = true
      · have unwanted : ¬ wanted d = true := fun h => first (among own d h)
        rw [List.filter_cons_of_pos own] at ih ⊢
        rw [List.filter_cons_of_neg unwanted, List.filter_cons_of_neg unwanted, ih]
      · rw [List.filter_cons_of_neg own] at ih ⊢
        rw [List.filter_cons, List.filter_cons, ih]

private theorem turn_enter (m : Manager) (id : Nat) (p : Path) :
    m.Turn p [] [] ((m.enter id).lane? p) := by
  have keeps : ∀ p : Pipeline, p.resume.id = p.id := fun p => p.resume_keeps.1
  unfold enter
  split
  · exact turn_stay m p
  · rename_i e found
    split
    · rw [lane?_update_requeue m id keeps]
      cases lane : m.lane? p with
      | none => exact .gone
      | some l =>
        have events : (m.queue ++ [e] ++ m.waiting.eraseP fun e => e.pipeline == id).filter
            (fun e => e.pipeline == l.id) = l.events := by
          have named : e.pipeline = id := by simpa using List.find?_some found
          rw [(registered_of_lane lane).2, List.append_assoc, List.filter_append,
            List.singleton_append, filter_cons_eraseP found, eventsOf, List.filter_append]
          intro own d wanted
          rw [beq_iff_eq] at own wanted ⊢
          rw [wanted, ← own, named]
        rw [Option.map_some, events]
        split
        · exact .step lane (.resume l)
        · exact .step lane (.stay l)
    · exact turn_stay m p

/-- In every move each lane takes one of its turns. -/
theorem turn_of_move (reg : m.Registered) (v : Move) (p : Path) :
    m.Turn p (triggersFor p m v) (appliedFor p m v) ((m.move v).lane? p) := by
  cases v with
  | request document => exact turn_request reg document p
  | untrack document => exact turn_untrack reg document p
  | next => exact turn_next m p
  | shutdown => exact .gone
  | receive id now =>
    exact turn_update m id (f := fun p => p.receive now) (fun p => (p.receive_keeps now).1)
      (fun l => .receive l now) p
  | begin id run now =>
    exact turn_update m id (f := fun p => p.begin run now) (fun p => (p.begin_keeps run now).1)
      (fun l => .begin l run now) p
  | finish id => exact turn_finish reg id p
  | enter id => exact turn_enter m id p
  | _ => exact turn_stay m p

end Manager

end ModBench
