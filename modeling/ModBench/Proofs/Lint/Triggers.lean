import Mathlib.Data.List.Basic
import ModBench.Proofs.Lint.Clock
import ModBench.Proofs.Lint.Finality

/-!
Lint requests and what becomes of them.  A request waits in the inbox of the pipeline that is
registered for its document, or of a new one; once the inboxes are delivered its debounce window is
open, and every other window is as it was.
-/

set_option autoImplicit false
set_option relaxedAutoImplicit false

namespace ModBench

/-- A pipeline that has one trigger to take in and can do so. -/
structure Pipeline.Fresh (settings : LintSettings) (trigger : Trigger) (p : Pipeline) : Prop where
  inbox : p.inbox = [trigger]
  alive : p.phase ≠ .ended
  free : p.phase ≠ .blocked
  settings : p.settings = settings

theorem Pipeline.Fresh.receiveAll {settings : LintSettings} {trigger : Trigger} {p : Pipeline}
    (fresh : p.Fresh settings trigger) (now : Nat) :
    p.receiveAll now = { p.openWindow now trigger with inbox := [] } := by
  rw [Pipeline.receiveAll, fresh.inbox]
  simp only [List.foldl_cons, List.foldl_nil, Pipeline.receive, fresh.inbox]
  split
  · rename_i phase
    exact absurd phase fresh.free
  · rename_i phase
    exact absurd phase fresh.alive
  · rename_i empty _ _
    cases empty
  · rename_i cut _ _
    cases cut
    rfl

theorem Pipeline.receiveAll_keeps (p : Pipeline) (now : Nat) :
    (p.receiveAll now).id = p.id ∧ (p.receiveAll now).document = p.document := by
  unfold receiveAll
  generalize p.inbox = inbox
  induction inbox generalizing p with
  | nil => exact ⟨rfl, rfl⟩
  | cons trigger rest ih =>
    rw [List.foldl_cons]
    obtain ⟨ids, documents⟩ := p.receive_keeps now
    exact ⟨(ih _).1.trans ids, (ih _).2.trans documents⟩

namespace Manager

variable {m : Manager} {now : Nat}

/-! ### Delivery -/

theorem registered?_deliver (m : Manager) (now : Nat) (p : Path) :
    (m.deliver now).registered? p =
      (m.registered? p).map fun t => { t with pipeline := t.pipeline.receiveAll now } :=
  PathMap.find?_map (fun t : Tracked =>
    ({ t with pipeline := t.pipeline.receiveAll now } : Tracked)) p m.tracked

theorem Registered.deliver (reg : m.Registered) (now : Nat) : (m.deliver now).Registered := by
  have back : ∀ {p t}, (m.deliver now).registered? p = some t → ∃ u, m.registered? p = some u ∧
      t.pipeline.id = u.pipeline.id ∧ t.pipeline.document = u.pipeline.document := by
    intro p t here
    rw [registered?_deliver] at here
    obtain ⟨u, before, rfl⟩ := Option.map_eq_some_iff.1 here
    exact ⟨u, before, u.pipeline.receiveAll_keeps now⟩
  exact reg.narrow (PathMap.sorted_map (fun e : Path × Tracked =>
    ({ e.2 with pipeline := e.2.pipeline.receiveAll now } : Tracked)) reg.sorted) back
    (Nat.le_refl _) reg.event_le

/-- Pipelines are settled, or have one trigger to take in. -/
structure Asked (m : Manager) (now : Nat) : Prop where
  registered : m.Registered
  waiting : m.waiting = []
  pipelines : ∀ {p t}, m.registered? p = some t →
    t.pipeline.Settled m.settings now ∨ ∃ trigger, t.pipeline.Fresh m.settings trigger

theorem Asked.deliver (asked : m.Asked now) : (m.deliver now).Calm now where
  registered := asked.registered.deliver now
  waiting := asked.waiting
  settled := by
    intro p t here
    rw [registered?_deliver] at here
    obtain ⟨u, before, rfl⟩ := Option.map_eq_some_iff.1 here
    dsimp only
    rcases asked.pipelines before with settled | ⟨trigger, fresh⟩
    · rw [Pipeline.receiveAll_of_inbox settled.inbox]
      exact settled
    · rw [fresh.receiveAll]
      refine ⟨rfl, fun h => (by cases h), fresh.settings, ?_⟩
      rintro d ⟨⟩
      exact Nat.le_add_right _ _

theorem window?_deliver_of_fresh {p : Path} {t : Tracked} (here : m.registered? p = some t)
    {trigger : Trigger} (fresh : t.pipeline.Fresh m.settings trigger) :
    (m.deliver now).window? p = some (trigger, now + m.settings.options.debounce) := by
  rw [window?, registered?_deliver, here, Option.map_some, Option.bind_some, fresh.receiveAll,
    ← fresh.settings]
  rfl

theorem window?_deliver_of_none {p : Path} (absent : m.registered? p = none) :
    (m.deliver now).window? p = none := by
  rw [window?, registered?_deliver, absent]
  rfl

theorem window?_deliver_of_inbox {p : Path} {t : Tracked} (here : m.registered? p = some t)
    (inbox : t.pipeline.inbox = []) : (m.deliver now).window? p = m.window? p := by
  rw [window?, window?, registered?_deliver, here, Option.map_some, Option.bind_some,
    Option.bind_some, Pipeline.receiveAll_of_inbox inbox]

theorem isTracked_eq (m : Manager) (p : Path) : m.isTracked p = (m.registered? p).isSome := rfl

theorem isTracked_deliver (m : Manager) (now : Nat) (p : Path) :
    (m.deliver now).isTracked p = m.isTracked p := by
  rw [isTracked_eq, isTracked_eq, registered?_deliver, Option.isSome_map]

/-! ### Requests -/

theorem request_of_none {document : Path} (absent : m.registered? document = none) :
    m.request document =
      { m with requests := m.requests + 1 }.spawn document (m.nextTrigger document) := by
  unfold registered? at absent
  simp only [request, absent]

private theorem fresh_newcomer (m : Manager) (document : Path) (trigger : Trigger) :
    (m.newcomer document trigger).pipeline.Fresh m.settings trigger :=
  ⟨rfl, fun h => (by cases h), fun h => (by cases h), rfl⟩

theorem rootFor_congr {p document : Path} (same : p.same document = true) (m : Manager) :
    m.rootFor document = m.rootFor p := by
  have starts : ∀ root : Path, document.startsWith root = p.startsWith root :=
    fun root => (Path.startsWith_congr same root).symm
  simp only [rootFor, workspaceRoot?, starts]

/-- The only thing that a request does is to give its document one trigger to take in. -/
structure Requested (m m' : Manager) (document : Path) : Prop where
  same : ∀ {p}, p.same document = true → ∃ t, m'.registered? p = some t ∧
    t.pipeline.Fresh m.settings ⟨m.rootFor p, m.requests + 1⟩
  other : ∀ {p}, p.same document = false → m'.registered? p = m.registered? p

theorem requested_spawn (reg : m.Registered) (document : Path) :
    m.Requested ({ m with requests := m.requests + 1 }.spawn document (m.nextTrigger document))
      document where
  same := by
    intro p same
    rw [← rootFor_congr same]
    have counted : PathMap.Sorted { m with requests := m.requests + 1 }.tracked := reg.sorted
    exact ⟨_, registered?_spawn_of_same counted same _, fresh_newcomer _ _ _⟩
  other apart := registered?_spawn_of_not_same _ apart _

private theorem requested_post {document : Path} {t : Tracked} (calm : m.Calm now)
    (here : m.registered? document = some t) (alive : t.pipeline.isAlive = true) :
    m.Requested ({ m with requests := m.requests + 1 }.updateById t.pipeline.id
      fun p => p.post (m.nextTrigger document)) document where
  same := by
    intro p same
    have own : { m with requests := m.requests + 1 }.registered? p = some t :=
      (registered?_congr same m).trans here
    have settled := calm.settled here
    refine ⟨_, registered?_updateById_of_id own _, ?_⟩
    rw [← rootFor_congr same]
    refine ⟨?_, ?_, settled.free, settled.settings⟩
    · simp only [Pipeline.post, settled.inbox, List.nil_append]
      rfl
    · intro phase
      have ended : t.pipeline.phase = .ended := phase
      simp [Pipeline.isAlive, ended] at alive
  other apart := registered?_post_of_not_same calm.registered.counted here apart _

theorem requested (calm : m.Calm now) (document : Path) :
    m.Requested (m.request document) document := by
  cases here : m.registered? document with
  | none =>
    rw [request_of_none here]
    exact requested_spawn calm.registered document
  | some t =>
    have found : m.tracked.find? document = some t := here
    simp only [request, found]
    split
    · rename_i alive
      exact requested_post calm here alive
    · exact requested_spawn calm.registered document

theorem request_frame (m : Manager) (document : Path) :
    (m.request document).waiting = m.waiting ∧ (m.request document).roots = m.roots := by
  unfold request
  dsimp only
  split
  · exact ⟨rfl, rfl⟩
  · split <;> exact ⟨rfl, rfl⟩

end Manager

end ModBench
