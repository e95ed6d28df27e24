import Mathlib.Data.List.Basic
import ModBench.Proofs.Lint.Due

/-!
Calm linters, in which pipelines wait for nothing but time, and what becomes of them when the first
pipeline goes on.
-/

set_option autoImplicit false
set_option relaxedAutoImplicit false

namespace ModBench

namespace Pipeline

/-- The open debounce window: its trigger and the time at which it runs out. -/
def window? (p : Pipeline) : Option (Trigger × Nat) :=
  match p.phase with
  | .debouncing trigger due => some (trigger, due)
  | _ => none

/-- A pipeline that has taken in all it got, waits for nothing but time, and has nothing overdue. -/
structure Settled (settings : LintSettings) (now : Nat) (p : Pipeline) : Prop where
  inbox : p.inbox = []
  free : p.phase ≠ .blocked
  settings : p.settings = settings
  due : ∀ due, p.due? = some due → now ≤ due

theorem phase_of_window {p : Pipeline} {trigger : Trigger} {due : Nat}
    (h : p.window? = some (trigger, due)) : p.phase = .debouncing trigger due := by
  cases phase : p.phase <;> simp_all [window?]

theorem due_of_window {p : Pipeline} {trigger : Trigger} {due : Nat}
    (h : p.window? = some (trigger, due)) : p.due? = some due := by
  rw [due?, phase_of_window h]

theorem receiveAll_of_inbox {p : Pipeline} (h : p.inbox = []) (now : Nat) :
    p.receiveAll now = p := by
  rw [receiveAll, h]
  rfl

end Pipeline

namespace Manager

variable {m : Manager}

/-- The open debounce window of a document. -/
def window? (m : Manager) (p : Path) : Option (Trigger × Nat) :=
  (m.registered? p).bind fun t => t.pipeline.window?

/-- The number of results that were not handled yet. -/
def unpolled (m : Manager) : Nat :=
  m.queue.length + m.waiting.length

/-- The register is in order, no result waits for room, and every pipeline is settled. -/
structure Calm (m : Manager) (now : Nat) : Prop where
  registered : m.Registered
  waiting : m.waiting = []
  settled : ∀ {p t}, m.registered? p = some t → t.pipeline.Settled m.settings now

theorem Calm.deliver_eq {now : Nat} (calm : m.Calm now) (later : Nat) :
    m.deliver later = m := by
  have same : (m.deliver later).tracked = m.tracked := by
    refine (List.map_congr_left ?_).trans (List.map_id _)
    intro e mem
    have here := PathMap.find?_of_mem calm.registered.sorted mem (Path.same_refl e.1)
    have settled := calm.settled here
    dsimp only
    rw [Pipeline.receiveAll_of_inbox settled.inbox]
    rfl
  calc m.deliver later = { m with tracked := (m.deliver later).tracked } := rfl
    _ = m := by rw [same]

theorem Calm.refill_eq {now : Nat} (calm : m.Calm now) (later : Nat) :
    m.refill later = m := by
  rw [Manager.refill, calm.waiting]
  exact calm.deliver_eq later

/-! ### Changes of one pipeline -/

/-- Calm managers stay calm when one pipeline changes to a settled one and time goes on to what is
due first. -/
theorem Calm.update {now later : Nat} (calm : m.Calm now) {id : Nat} {f : Pipeline → Pipeline}
    (keeps : ∀ p, (f p).id = p.id ∧ (f p).document = p.document)
    (settled : ∀ p t, m.registered? p = some t → t.pipeline.id = id →
      (f t.pipeline).Settled m.settings later)
    (least : ∀ p t, m.registered? p = some t → ∀ d, t.pipeline.due? = some d → later ≤ d) :
    (m.updateById id f).Calm later where
  registered := calm.registered.update id f keeps
  waiting := calm.waiting
  settled := by
    intro p t here
    rw [registered?_updateById] at here
    obtain ⟨u, before, rfl⟩ := Option.map_eq_some_iff.1 here
    split
    · rename_i named
      exact settled p u before named
    · have old := calm.settled before
      exact ⟨old.inbox, old.free, old.settings, least p u before⟩

private theorem window?_updateById (m : Manager) (id : Nat) (f : Pipeline → Pipeline) (p : Path) :
    (m.updateById id f).window? p = (m.registered? p).bind fun t =>
      if t.pipeline.id = id then (f t.pipeline).window? else t.pipeline.window? := by
  rw [window?, registered?_updateById]
  cases m.registered? p with
  | none => rfl
  | some t =>
    simp only [Option.map_some, Option.bind_some]
    split <;> rfl

/-! ### Going on -/

theorem Calm.next {now due : Nat} (calm : m.Calm now) {p : Pipeline}
    (next : m.nextDue? = some (due, p)) :
    ∃ q t, m.registered? q = some t ∧ t.pipeline = p ∧ p ∈ m.pipelines ∧ p.due? = some due ∧
      now ≤ due ∧ ∀ r u, m.registered? r = some u → ∀ d, u.pipeline.due? = some d → due ≤ d := by
  obtain ⟨mem, own, least⟩ := nextDue?_eq_some next
  obtain ⟨q, t, here, rfl⟩ := (mem_pipelines_iff calm.registered.sorted).1 mem
  refine ⟨q, t, here, rfl, mem, own, (calm.settled here).due due own, ?_⟩
  intro r u there
  exact least _ ((mem_pipelines_iff calm.registered.sorted).2 ⟨r, u, there, rfl⟩)

theorem window?_of_document (reg : m.Registered) {q : Path} {t : Tracked}
    (here : m.registered? q = some t) {p : Path} (same : p.same t.pipeline.document = true) :
    m.window? p = t.pipeline.window? := by
  rw [window?, reg.of_document here same, Option.bind_some]

/-- A change of a registered pipeline is seen in the window of its document only. -/
theorem window?_update (reg : m.Registered) {q : Path} {t : Tracked}
    (here : m.registered? q = some t) (f : Pipeline → Pipeline) (p : Path) :
    (m.updateById t.pipeline.id f).window? p =
      if p.same t.pipeline.document = true then (f t.pipeline).window? else m.window? p := by
  rw [window?_updateById]
  split
  · rename_i same
    rw [reg.of_document here same, Option.bind_some, if_pos rfl]
  · rename_i apart
    rw [window?]
    cases there : m.registered? p with
    | none => rfl
    | some u =>
      have other : u.pipeline.id ≠ t.pipeline.id := by
        intro ids
        obtain rfl := reg.unique there here ids
        exact apart (reg.document there)
      rw [Option.bind_some, Option.bind_some, if_neg other]

/-- What the first pipeline does when its window runs out. -/
theorem Calm.begin {now due : Nat} (calm : m.Calm now) {p : Pipeline}
    (next : m.nextDue? = some (due, p)) {trigger : Trigger}
    (window : p.window? = some (trigger, due)) (run : Run) :
    (m.begin p.id run due).Calm due ∧ (m.begin p.id run due).load < m.load ∧
      ∀ q, (m.begin p.id run due).window? q =
        if q.same p.document = true then none else m.window? q := by
  obtain ⟨q, t, here, rfl, mem, _, _, least⟩ := calm.next next
  have phase := Pipeline.phase_of_window window
  refine ⟨?_, ?_, ?_⟩
  · refine calm.update (fun p => p.begin_keeps run due) ?_ least
    intro r u there ids
    obtain rfl := calm.registered.unique there here ids
    have old := calm.settled there
    simp only [Pipeline.begin, phase]
    refine ⟨old.inbox, fun h => (by cases h), old.settings, ?_⟩
    rintro d ⟨⟩
    exact Nat.le_add_right _ _
  · refine load_updateById_lt mem ?_ ?_
    · intro p
      unfold Pipeline.begin
      split
      · rename_i phase
        simp [Pipeline.steps, phase]
      · exact Nat.le_refl _
    · simp [Pipeline.begin, Pipeline.steps, phase]
  · intro r
    refine (window?_update calm.registered here (fun p => p.begin run due) r).trans ?_
    simp only [Pipeline.begin, phase, Pipeline.window?]

theorem unpolled_send (m : Manager) (e : Event) : (m.send e).unpolled = m.unpolled + 1 := by
  unfold send
  split
  · simp only [unpolled, updateById, List.length_append, List.length_singleton]
    omega
  · simp only [unpolled, updateById, List.length_append, List.length_singleton]
    omega

/-- Taking a pipeline out of work lowers the load, and no window opens or closes. -/
private theorem Calm.rest {now due : Nat} (calm : m.Calm now) {p : Pipeline}
    (next : m.nextDue? = some (due, p)) (window : p.window? = none) {phase : Phase}
    (free : phase = .idle ∨ phase = .ended) :
    (m.updateById p.id fun p => { p with phase := phase }).Calm due ∧
      (m.updateById p.id fun p => { p with phase := phase }).load < m.load ∧
      ∀ q, (m.updateById p.id fun p => { p with phase := phase }).window? q = m.window? q := by
  obtain ⟨q, t, here, rfl, mem, own, _, least⟩ := calm.next next
  have still : ∀ p : Pipeline, ({ p with phase := phase } : Pipeline).steps = 0 ∧
      ({ p with phase := phase } : Pipeline).due? = none ∧
      ({ p with phase := phase } : Pipeline).window? = none := by
    intro p
    rcases free with rfl | rfl <;> exact ⟨rfl, rfl, rfl⟩
  refine ⟨?_, ?_, ?_⟩
  · refine calm.update (fun _ => ⟨rfl, rfl⟩) ?_ least
    intro r u there ids
    have old := calm.settled there
    refine ⟨old.inbox, ?_, old.settings, ?_⟩
    · rcases free with rfl | rfl <;> exact fun h => by cases h
    · intro d eq
      rw [(still _).2.1] at eq
      cases eq
  · refine load_updateById_lt mem (f := fun p => { p with phase := phase }) ?_ ?_
    · intro p
      rw [(still p).1]
      exact Nat.zero_le _
    · rw [(still _).1]
      apply Nat.pos_of_ne_zero
      intro zero
      rw [Pipeline.steps_eq_zero_iff.1 zero] at own
      cases own
  · intro r
    rw [window?_update calm.registered here (f := fun p => { p with phase := phase })]
    split
    · rename_i same
      rw [(still _).2.2, window?_of_document calm.registered here same, window]
    · rfl

/-- What the first pipeline does when its lint run ends, if there is room for the result. -/
theorem Calm.finish {now due : Nat} (calm : m.Calm now) {p : Pipeline}
    (next : m.nextDue? = some (due, p)) (window : p.window? = none)
    (room : (m.finish p.id).unpolled ≤ queueCapacity) :
    (m.finish p.id).Calm due ∧ (m.finish p.id).load < m.load ∧
      ∀ q, (m.finish p.id).window? q = m.window? q := by
  have registered := calm.registered.finish p.id
  obtain ⟨q, t, here, rfl, mem, own, _, _⟩ := calm.next next
  unfold Manager.finish at room registered ⊢
  rw [calm.registered.pipeline?_eq here] at room registered ⊢
  dsimp only at room registered ⊢
  cases phase : t.pipeline.phase with
  | idle => simp [Pipeline.due?, phase] at own
  | blocked => simp [Pipeline.due?, phase] at own
  | ended => simp [Pipeline.due?, phase] at own
  | debouncing trigger due => simp [Pipeline.window?, phase] at window
  | running trigger ending ends =>
    rw [phase] at room registered
    cases ending with
    | crash => exact calm.rest next window (Or.inr rfl)
    | result result =>
      dsimp only at room registered ⊢
      obtain ⟨rested, load, windows⟩ := calm.rest next window (Or.inl rfl)
      have free : (m.queue.length < queueCapacity && m.waiting.isEmpty) = true := by
        rw [unpolled_send, unpolled, calm.waiting] at room
        simp only [calm.waiting, List.isEmpty_nil, Bool.and_true, decide_eq_true_eq]
        exact Nat.lt_of_succ_le room
      rw [send, if_pos free] at registered ⊢
      exact ⟨⟨registered, rested.waiting, rested.settled⟩, load, windows⟩

/-- Settings, roots and the set of tracked documents are the same. -/
structure Alike (m m' : Manager) : Prop where
  settings : m'.settings = m.settings
  roots : m'.roots = m.roots
  tracked : ∀ p, m'.isTracked p = m.isTracked p

theorem Alike.refl (m : Manager) : m.Alike m := ⟨rfl, rfl, fun _ => rfl⟩

theorem Alike.trans {m m' m'' : Manager} (first : m.Alike m') (second : m'.Alike m'') :
    m.Alike m'' :=
  ⟨second.settings.trans first.settings, second.roots.trans first.roots,
    fun p => (second.tracked p).trans (first.tracked p)⟩

theorem alike_updateById (m : Manager) (id : Nat) (f : Pipeline → Pipeline) :
    m.Alike (m.updateById id f) where
  settings := rfl
  roots := rfl
  tracked p := by
    have mapped := congrArg Option.isSome (registered?_updateById m id f p)
    rw [Option.isSome_map] at mapped
    exact mapped

private theorem alike_send (m : Manager) (e : Event) : m.Alike (m.send e) := by
  unfold send
  split
  · have same := alike_updateById m e.pipeline fun p => { p with phase := .idle }
    exact ⟨rfl, rfl, same.tracked⟩
  · have same := alike_updateById m e.pipeline fun p => { p with phase := .blocked }
    exact ⟨rfl, rfl, same.tracked⟩

theorem alike_finish (m : Manager) (id : Nat) : m.Alike (m.finish id) := by
  unfold Manager.finish
  split
  · exact .refl m
  · split
    · exact alike_send m _
    · exact alike_updateById m _ _
    · exact .refl m

theorem unpolled_le_finish (m : Manager) (id : Nat) : m.unpolled ≤ (m.finish id).unpolled := by
  unfold Manager.finish
  split
  · exact Nat.le_refl _
  · split
    · rw [unpolled_send]
      exact Nat.le_succ _
    · exact Nat.le_refl _
    · exact Nat.le_refl _

end Manager

end ModBench
