import Mathlib.Data.List.Basic
import ModBench.Proofs.Lint.Moves
import ModBench.Proofs.Path.Map

/-!
The register of pipelines.  At most one pipeline is registered for a document, no two registered
pipelines have the same number, and no number is given out twice.
-/

set_option autoImplicit false
set_option relaxedAutoImplicit false

namespace ModBench

/-! ### Numbers and documents of pipelines -/

namespace Pipeline

theorem receive_keeps (p : Pipeline) (now : Nat) :
    (p.receive now).id = p.id ∧ (p.receive now).document = p.document := by
  unfold receive
  split <;> exact ⟨rfl, rfl⟩

theorem begin_keeps (p : Pipeline) (run : Run) (now : Nat) :
    (p.begin run now).id = p.id ∧ (p.begin run now).document = p.document := by
  unfold begin
  split <;> exact ⟨rfl, rfl⟩

theorem resume_keeps (p : Pipeline) :
    p.resume.id = p.id ∧ p.resume.document = p.document := by
  unfold resume
  split <;> exact ⟨rfl, rfl⟩

end Pipeline

namespace Manager

open PathMap (Sorted)

/-- The pipeline registered for a document. -/
def registered? (m : Manager) (p : Path) : Option Tracked :=
  m.tracked.find? p

theorem registered?_congr {p q : Path} (h : p.same q = true) (m : Manager) :
    m.registered? p = m.registered? q :=
  PathMap.find?_congr h m.tracked

/-- What every register keeps. -/
structure Registered (m : Manager) : Prop where
  sorted : Sorted m.tracked
  document : ∀ {p t}, m.registered? p = some t → p.same t.pipeline.document = true
  id_le : ∀ {p t}, m.registered? p = some t → t.pipeline.id ≤ m.lastId
  id_inj : ∀ {p q t u}, m.registered? p = some t → m.registered? q = some u →
    t.pipeline.id = u.pipeline.id → p.same q = true
  event_le : ∀ e ∈ m.queue ++ m.waiting, e.pipeline ≤ m.lastId

theorem registered_new (settings : LintSettings) : (new settings).Registered where
  sorted := List.Pairwise.nil
  document h := by cases h
  id_le h := by cases h
  id_inj h := by cases h
  event_le e mem := by cases mem

/-! ### What single operations do to the register -/

theorem registered?_updateById (m : Manager) (id : Nat) (f : Pipeline → Pipeline) (p : Path) :
    (m.updateById id f).registered? p = (m.registered? p).map fun t =>
      if t.pipeline.id = id then { t with pipeline := f t.pipeline } else t :=
  PathMap.find?_map (fun t : Tracked =>
    if t.pipeline.id = id then ({ t with pipeline := f t.pipeline } : Tracked) else t) p m.tracked

private theorem sorted_updateById {m : Manager} (sorted : Sorted m.tracked) (id : Nat)
    (f : Pipeline → Pipeline) : Sorted (m.updateById id f).tracked :=
  PathMap.sorted_map (fun e : Path × Tracked =>
    if e.2.pipeline.id = id then ({ e.2 with pipeline := f e.2.pipeline } : Tracked) else e.2)
    sorted

theorem registered?_updateById_of_id {m : Manager} {p : Path} {t : Tracked}
    (h : m.registered? p = some t) (f : Pipeline → Pipeline) :
    (m.updateById t.pipeline.id f).registered? p = some { t with pipeline := f t.pipeline } := by
  rw [registered?_updateById, h, Option.map_some, if_pos rfl]

theorem registered?_spawn_of_same {m : Manager} (sorted : Sorted m.tracked) {p document : Path}
    (same : p.same document = true) (trigger : Trigger) :
    (m.spawn document trigger).registered? p = some (m.newcomer document trigger) :=
  PathMap.find?_insert_of_same sorted same _

theorem registered?_spawn_of_not_same (m : Manager) {p document : Path}
    (apart : p.same document = false) (trigger : Trigger) :
    (m.spawn document trigger).registered? p = m.registered? p :=
  PathMap.find?_insert_of_not_same apart _ _

theorem registered?_untrack_of_same (m : Manager) {p document : Path}
    (same : p.same document = true) : (m.untrack document).registered? p = none := by
  unfold untrack
  split
  · rename_i absent
    exact (PathMap.find?_congr same m.tracked).trans absent
  · exact PathMap.find?_erase_of_same same m.tracked

theorem registered?_untrack_of_not_same (m : Manager) {p document : Path}
    (apart : p.same document = false) : (m.untrack document).registered? p = m.registered? p := by
  unfold untrack
  split
  · rfl
  · exact PathMap.find?_erase_of_not_same apart m.tracked

/-- An event is accepted exactly when it comes from the registered pipeline and nothing newer was
applied from that. -/
theorem accepts_iff {m : Manager} {e : Event} :
    m.accepts e = true ↔ ∃ t, m.registered? e.document = some t ∧ t.pipeline.id = e.pipeline ∧
      t.applied ≤ e.generation := by
  unfold accepts
  cases found : m.registered? e.document with
  | none =>
    have absent : m.tracked.find? e.document = none := found
    simp [absent]
  | some t =>
    have present : m.tracked.find? e.document = some t := found
    simp [present]

private theorem applyResult_tracked (m : Manager) (e : Event) :
    (m.applyResult e).tracked = m.tracked := by
  unfold applyResult
  split <;> rfl

theorem handle_tracked (m : Manager) (e : Event) :
    (m.handle e).tracked =
      if m.accepts e then m.tracked.adjust e.document fun t => { t with applied := e.generation }
      else m.tracked := by
  unfold handle
  split
  · exact applyResult_tracked _ e
  · rfl

theorem handle_queues (m : Manager) (e : Event) :
    (m.handle e).queue = m.queue ∧ (m.handle e).waiting = m.waiting ∧
      (m.handle e).lastId = m.lastId ∧ (m.handle e).requests = m.requests := by
  unfold handle
  split
  · unfold applyResult
    split <;> exact ⟨rfl, rfl, rfl, rfl⟩
  · exact ⟨rfl, rfl, rfl, rfl⟩

theorem registered?_handle_of_same (m : Manager) (e : Event) {p : Path}
    (same : p.same e.document = true) :
    (m.handle e).registered? p =
      if m.accepts e then (m.registered? p).map fun t => { t with applied := e.generation }
      else m.registered? p := by
  unfold registered?
  rw [handle_tracked]
  split
  · exact PathMap.find?_adjust_of_same (Path.same_symm same) _ _
  · rfl

theorem registered?_handle_of_not_same (m : Manager) (e : Event) {p : Path}
    (apart : p.same e.document = false) : (m.handle e).registered? p = m.registered? p := by
  unfold registered?
  rw [handle_tracked]
  split
  · rw [Path.same_comm] at apart
    exact PathMap.find?_adjust_of_not_same apart _ _
  · rfl

theorem pipeline?_eq_some {m : Manager} (sorted : Sorted m.tracked) {id : Nat} {p : Pipeline}
    (h : m.pipeline? id = some p) :
    ∃ q t, m.registered? q = some t ∧ t.pipeline = p ∧ p.id = id := by
  have named : p.id = id := by simpa using List.find?_some h
  obtain ⟨⟨q, t⟩, mem, rfl⟩ := List.mem_map.1 (List.mem_of_find?_eq_some h)
  exact ⟨q, t, PathMap.find?_of_mem sorted mem (Path.same_refl q), rfl, named⟩

theorem mem_pipelines_iff {m : Manager} (sorted : Sorted m.tracked) {p : Pipeline} :
    p ∈ m.pipelines ↔ ∃ q t, m.registered? q = some t ∧ t.pipeline = p := by
  constructor
  · intro mem
    obtain ⟨⟨q, t⟩, tracked, rfl⟩ := List.mem_map.1 mem
    exact ⟨q, t, PathMap.find?_of_mem sorted tracked (Path.same_refl q), rfl⟩
  · rintro ⟨q, t, here, rfl⟩
    obtain ⟨r, _, tracked⟩ := PathMap.exists_mem_of_find? here
    exact List.mem_map.2 ⟨(r, t), tracked, rfl⟩

/-! ### The register after a move -/

namespace Registered

variable {m : Manager}

/-- A registered pipeline is the one registered for its document. -/
theorem of_document (reg : m.Registered) {p q : Path} {t : Tracked}
    (here : m.registered? q = some t) (same : p.same t.pipeline.document = true) :
    m.registered? p = some t :=
  (registered?_congr (Path.same_trans same (Path.same_symm (reg.document here))) m).trans here

/-- No two registered pipelines have the same number. -/
theorem unique (reg : m.Registered) {p q : Path} {t u : Tracked} (here : m.registered? p = some t)
    (there : m.registered? q = some u) (ids : t.pipeline.id = u.pipeline.id) : t = u := by
  have same := registered?_congr (reg.id_inj here there ids) m
  rw [here, there] at same
  exact Option.some.inj same

theorem pipeline?_eq (reg : m.Registered) {p : Path} {t : Tracked}
    (here : m.registered? p = some t) : m.pipeline? t.pipeline.id = some t.pipeline := by
  obtain ⟨q, _, tracked⟩ := PathMap.exists_mem_of_find? here
  cases found : m.pipeline? t.pipeline.id with
  | none =>
    have other := List.find?_eq_none.1 found _ (List.mem_map.2 ⟨(q, t), tracked, rfl⟩)
    exact absurd (beq_self_eq_true _) other
  | some r =>
    obtain ⟨_, u, there, rfl, ids⟩ := pipeline?_eq_some reg.sorted found
    obtain rfl := reg.unique there here ids
    rfl

/-- Other events, if they come from known pipelines. -/
theorem requeue (reg : m.Registered) {queue waiting : List Event}
    (known : ∀ e ∈ queue ++ waiting, e.pipeline ≤ m.lastId) :
    { m with queue := queue, waiting := waiting }.Registered :=
  ⟨reg.sorted, reg.document, reg.id_le, reg.id_inj, known⟩

/-- The register stays in order when all that is in it was there before, with the same numbers and
documents. -/
theorem narrow (reg : m.Registered) {m' : Manager} (sorted : Sorted m'.tracked)
    (back : ∀ {p t}, m'.registered? p = some t → ∃ u, m.registered? p = some u ∧
      t.pipeline.id = u.pipeline.id ∧ t.pipeline.document = u.pipeline.document)
    (last : m.lastId ≤ m'.lastId)
    (known : ∀ e ∈ m'.queue ++ m'.waiting, e.pipeline ≤ m'.lastId) : m'.Registered where
  sorted := sorted
  document := by
    intro p t h
    obtain ⟨u, here, _, eq⟩ := back h
    rw [eq]
    exact reg.document here
  id_le := by
    intro p t h
    obtain ⟨u, here, eq, _⟩ := back h
    rw [eq]
    exact Nat.le_trans (reg.id_le here) last
  id_inj := by
    intro p q t u h h' ids
    obtain ⟨t', here, eq, _⟩ := back h
    obtain ⟨u', here', eq', _⟩ := back h'
    exact reg.id_inj here here' (by rw [← eq, ← eq', ids])
  event_le := known

/-- A change of one pipeline that keeps its number and document. -/
theorem update (reg : m.Registered) (id : Nat) (f : Pipeline → Pipeline)
    (keeps : ∀ p, (f p).id = p.id ∧ (f p).document = p.document) :
    (m.updateById id f).Registered := by
  have back : ∀ {p t}, (m.updateById id f).registered? p = some t → ∃ u, m.registered? p = some u ∧
      t.pipeline.id = u.pipeline.id ∧ t.pipeline.document = u.pipeline.document := by
    intro p t h
    rw [registered?_updateById] at h
    obtain ⟨u, here, rfl⟩ := Option.map_eq_some_iff.1 h
    refine ⟨u, here, ?_⟩
    split
    · exact keeps _
    · exact ⟨rfl, rfl⟩
  exact reg.narrow (sorted_updateById reg.sorted id f) back (Nat.le_refl _) reg.event_le

private theorem spawn (reg : m.Registered) (document : Path) (trigger : Trigger) :
    (m.spawn document trigger).Registered := by
  have cases : ∀ {p t}, (m.spawn document trigger).registered? p = some t →
      (p.same document = true ∧ t = m.newcomer document trigger) ∨
        (p.same document = false ∧ m.registered? p = some t) := by
    intro p t h
    cases same : p.same document with
    | true =>
      rw [registered?_spawn_of_same reg.sorted same] at h
      exact Or.inl ⟨rfl, (Option.some.inj h).symm⟩
    | false =>
      rw [registered?_spawn_of_not_same m same] at h
      exact Or.inr ⟨rfl, h⟩
  exact {
    sorted := PathMap.sorted_insert reg.sorted _ _
    document := by
      intro p t h
      rcases cases h with ⟨same, rfl⟩ | ⟨_, here⟩
      · exact same
      · exact reg.document here
    id_le := by
      intro p t h
      rcases cases h with ⟨_, rfl⟩ | ⟨_, here⟩
      · exact Nat.le_refl _
      · exact Nat.le_succ_of_le (reg.id_le here)
    id_inj := by
      intro p q t u h h' ids
      rcases cases h with ⟨same, rfl⟩ | ⟨_, here⟩ <;> rcases cases h' with ⟨same', rfl⟩ | ⟨_, here'⟩
      · exact Path.same_trans same (Path.same_symm same')
      · have small := reg.id_le here'
        rw [← ids] at small
        exact absurd small (Nat.not_succ_le_self _)
      · have small := reg.id_le here
        rw [ids] at small
        exact absurd small (Nat.not_succ_le_self _)
      · exact reg.id_inj here here' ids
    event_le := fun e mem => Nat.le_succ_of_le (reg.event_le e mem) }

theorem counted (reg : m.Registered) :
    { m with requests := m.requests + 1 }.Registered :=
  ⟨reg.sorted, reg.document, reg.id_le, reg.id_inj, reg.event_le⟩

theorem request (reg : m.Registered) (document : Path) : (m.request document).Registered := by
  unfold Manager.request
  dsimp only
  split
  · exact reg.counted.spawn document _
  · split
    · exact reg.counted.update _ _ fun _ => ⟨rfl, rfl⟩
    · exact reg.counted.spawn document _

theorem untrack (reg : m.Registered) (document : Path) : (m.untrack document).Registered := by
  have back : ∀ {p t}, (m.untrack document).registered? p = some t → ∃ u, m.registered? p = some u ∧
      t.pipeline.id = u.pipeline.id ∧ t.pipeline.document = u.pipeline.document := by
    intro p t h
    cases same : p.same document with
    | true =>
      rw [registered?_untrack_of_same m same] at h
      cases h
    | false =>
      rw [registered?_untrack_of_not_same m same] at h
      exact ⟨t, h, rfl, rfl⟩
  unfold Manager.untrack at back ⊢
  split at back
  · exact reg
  · refine reg.narrow (PathMap.sorted_erase reg.sorted document) back (Nat.le_refl _) ?_
    intro e mem
    rcases List.mem_append.1 mem with queued | blocked
    · exact reg.event_le e (List.mem_append_left _ queued)
    · exact reg.event_le e (List.mem_append_right _ (List.mem_filter.1 blocked).1)

theorem handle (reg : m.Registered) (e : Event) : (m.handle e).Registered := by
  have back : ∀ {p t}, (m.handle e).registered? p = some t → ∃ u, m.registered? p = some u ∧
      t.pipeline.id = u.pipeline.id ∧ t.pipeline.document = u.pipeline.document := by
    intro p t h
    cases same : p.same e.document with
    | true =>
      rw [registered?_handle_of_same m e same] at h
      split at h
      · obtain ⟨u, here, rfl⟩ := Option.map_eq_some_iff.1 h
        exact ⟨u, here, rfl, rfl⟩
      · exact ⟨t, h, rfl, rfl⟩
    | false =>
      rw [registered?_handle_of_not_same m e same] at h
      exact ⟨t, h, rfl, rfl⟩
  obtain ⟨queue, waiting, last, _⟩ := handle_queues m e
  refine reg.narrow ?_ back (Nat.le_of_eq last.symm) ?_
  · rw [handle_tracked]
    split
    · exact PathMap.sorted_map _ reg.sorted
    · exact reg.sorted
  · rw [queue, waiting, last]
    exact reg.event_le

theorem next (reg : m.Registered) : m.next.Registered := by
  unfold Manager.next
  split
  · exact reg
  · rename_i e rest queued
    refine (reg.requeue ?_).handle e
    intro d mem
    exact reg.event_le d (queued ▸ List.mem_cons_of_mem e mem)

private theorem send (reg : m.Registered) {e : Event} (known : e.pipeline ≤ m.lastId) :
    (m.send e).Registered := by
  have all : ∀ d ∈ m.queue ++ m.waiting ++ [e], d.pipeline ≤ m.lastId := by
    intro d mem
    rcases List.mem_append.1 mem with old | new
    · exact reg.event_le d old
    · rw [List.mem_singleton.1 new]
      exact known
  unfold Manager.send
  split
  · rename_i room
    have empty : m.waiting = [] := by
      simp only [Bool.and_eq_true, List.isEmpty_iff] at room
      exact room.2
    refine (reg.update e.pipeline (fun p => { p with phase := .idle }) fun _ =>
      ⟨rfl, rfl⟩).requeue ?_
    simpa [updateById, empty] using all
  · refine (reg.update e.pipeline (fun p => { p with phase := .blocked }) fun _ =>
      ⟨rfl, rfl⟩).requeue ?_
    simpa [updateById] using all

theorem finish (reg : m.Registered) (id : Nat) : (m.finish id).Registered := by
  unfold Manager.finish
  split
  · exact reg
  · rename_i p found
    obtain ⟨q, t, here, rfl, _⟩ := pipeline?_eq_some reg.sorted found
    split
    · exact reg.send (reg.id_le here)
    · exact reg.update _ _ fun _ => ⟨rfl, rfl⟩
    · exact reg

private theorem enter (reg : m.Registered) (id : Nat) : (m.enter id).Registered := by
  unfold Manager.enter
  split
  · exact reg
  · rename_i e found
    split
    · refine (reg.update id Pipeline.resume Pipeline.resume_keeps).requeue ?_
      intro d mem
      apply reg.event_le
      simp only [List.mem_append, List.mem_singleton] at mem ⊢
      rcases mem with (queued | rfl) | blocked
      · exact Or.inl queued
      · exact Or.inr (List.mem_of_find?_eq_some found)
      · exact Or.inr (List.mem_of_mem_eraseP blocked)
    · exact reg

/-- Every move keeps the register in order. -/
theorem move (reg : m.Registered) (v : Move) : (m.move v).Registered := by
  cases v with
  | request document => exact reg.request document
  | untrack document => exact reg.untrack document
  | next => exact reg.next
  | shutdown =>
    exact {
      sorted := List.Pairwise.nil
      document := fun h => by cases h
      id_le := fun h => by cases h
      id_inj := fun h => by cases h
      event_le := fun e mem => by cases mem }
  | receive id now =>
    exact reg.update id (fun p => p.receive now) fun p => p.receive_keeps now
  | begin id run now =>
    exact reg.update id (fun p => p.begin run now) fun p => p.begin_keeps run now
  | finish id => exact reg.finish id
  | enter id => exact reg.enter id
  | _ => exact ⟨reg.sorted, reg.document, reg.id_le, reg.id_inj, reg.event_le⟩

theorem after (reg : m.Registered) (history : List Act) : (m.after history).Registered :=
  after_induction reg (fun _ v reg => reg.move v) history

end Registered

/-! ### Documents apart from the one that a request is for -/

variable {m : Manager}

theorem registered?_post_of_not_same (reg : m.Registered) {p document : Path} {t : Tracked}
    (here : m.registered? document = some t) (apart : p.same document = false)
    (f : Pipeline → Pipeline) :
    (m.updateById t.pipeline.id f).registered? p = m.registered? p := by
  rw [registered?_updateById]
  cases there : m.registered? p with
  | none => rfl
  | some u =>
    have other : u.pipeline.id ≠ t.pipeline.id := by
      intro ids
      rw [reg.id_inj there here ids] at apart
      cases apart
    rw [Option.map_some, if_neg other]

theorem registered?_request_of_apart (reg : m.Registered) {p document : Path}
    (apart : p.same document = false) :
    (m.request document).registered? p = m.registered? p := by
  unfold request
  dsimp only
  split
  · exact registered?_spawn_of_not_same _ apart _
  · rename_i t here
    split
    · exact registered?_post_of_not_same reg.counted here apart _
    · exact registered?_spawn_of_not_same _ apart _

end Manager

end ModBench
