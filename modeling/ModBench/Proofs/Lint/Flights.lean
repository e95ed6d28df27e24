import Mathlib.Data.List.Nodup
import ModBench.Proofs.Lint.Conservation
import ModBench.Proofs.Lint.Interleaving
import ModBench.Proofs.Lint.Staleness

/-!
Single flight.  However a document is opened, saved, closed and opened again, no two lint runs of it
are ever under way at once, the one that is belongs to the document's registered pipeline, and a run
that was given up never sends a result.
-/

set_option autoImplicit false
set_option relaxedAutoImplicit false

namespace ModBench.Manager

variable {m : Manager}

/-! ### Numbers of lint runs -/

/-- No number is given to two lint runs, and the registered pipelines have counted theirs. -/
structure Numbered (m : Manager) (begun : List Flight) : Prop where
  registered : m.Registered
  keys : (begun.map Flight.key).Nodup
  known : ∀ f ∈ begun, f.pipeline ≤ m.lastId
  counted : ∀ f ∈ begun, ∀ {p t}, m.registered? p = some t → t.pipeline.id = f.pipeline →
    f.generation ≤ t.pipeline.generation

private theorem numbered_new (settings : LintSettings) : (new settings).Numbered [] where
  registered := registered_new settings
  keys := List.nodup_nil
  known f mem := by cases mem
  counted f mem := by cases mem

namespace Numbered

variable {begun : List Flight}

/-- A lint run that begins is one more of a registered pipeline. -/
theorem of_begunIn (numbered : m.Numbered begun) {v : Move} {f : Flight}
    (mem : f ∈ m.begunIn v) : ∃ p t, m.registered? p = some t ∧ t.pipeline.id = f.pipeline ∧
      f.generation = t.pipeline.generation + 1 := by
  obtain ⟨_, _, _, q, _, _, _, found, _, rfl⟩ := mem_begunIn mem
  obtain ⟨p, t, here, rfl, _⟩ := pipeline?_eq_some numbered.registered.sorted found
  exact ⟨p, t, here, rfl, rfl⟩

theorem known_move (numbered : m.Numbered begun) (v : Move) :
    ∀ f ∈ begun ++ m.begunIn v, f.pipeline ≤ m.lastId := by
  intro f mem
  rcases List.mem_append.1 mem with old | new
  · exact numbered.known f old
  · obtain ⟨p, t, here, ids, _⟩ := numbered.of_begunIn new
    rw [← ids]
    exact numbered.registered.id_le here

private theorem keys_move (numbered : m.Numbered begun) (v : Move) :
    ((begun ++ m.begunIn v).map Flight.key).Nodup := by
  have fresh : ∀ f ∈ m.begunIn v, f.key ∉ begun.map Flight.key := by
    intro f new old
    obtain ⟨d, before, same⟩ := List.mem_map.1 old
    obtain ⟨pipeline, generation⟩ := Prod.mk.inj same
    obtain ⟨p, t, here, ids, next⟩ := numbered.of_begunIn new
    have counted := numbered.counted d before here (ids.trans pipeline.symm)
    omega
  rcases begunIn_cases m v with none | ⟨_, _, _, _, _, _, _, _, _, one⟩
  · rw [none, List.append_nil]
    exact numbered.keys
  · rw [one] at fresh ⊢
    rw [List.map_append, List.map_singleton, ← List.concat_eq_append]
    exact (List.nodup_concat _ _).2 ⟨fresh _ (List.mem_singleton_self _), numbered.keys⟩

private theorem counted_move (numbered : m.Numbered begun) (v : Move) {f : Flight}
    (mem : f ∈ begun ++ m.begunIn v) {p : Path} {t' : Tracked}
    (there : (m.move v).registered? p = some t') (ids : t'.pipeline.id = f.pipeline) :
    f.generation ≤ t'.pipeline.generation := by
  have known := numbered.known_move v f mem
  rcases numbered.registered.newcomer_or_change there with ⟨_, _, rfl, _⟩ | ⟨t, before, change⟩
  · have new : m.lastId + 1 = f.pipeline := ids
    omega
  · obtain ⟨same, _, _⟩ := change.keeps
    rw [change.generation]
    rcases List.mem_append.1 mem with past | now
    · have counted := numbered.counted f past before (same.symm.trans ids)
      omega
    · obtain ⟨q, u, here, named, next⟩ := numbered.of_begunIn now
      obtain rfl := numbered.registered.unique here before (named.trans (ids.symm.trans same))
      have noted : f ∈ (m.notes v p u.pipeline.id).begun := by
        simp [notes, now, named]
      have some_begun := List.length_pos_of_mem noted
      omega

private theorem move (numbered : m.Numbered begun) (v : Move) :
    (m.move v).Numbered (begun ++ m.begunIn v) where
  registered := numbered.registered.move v
  keys := numbered.keys_move v
  known f mem := Nat.le_trans (numbered.known_move v f mem) (move_counts m v).1
  counted _ mem _ _ there ids := numbered.counted_move v mem there ids

end Numbered

theorem numbered_after (settings : LintSettings) (history : List Act) :
    ((new settings).after history).Numbered ((new settings).begun history) :=
  @log_induction _ Unit begunIn (fun _ _ => []) (fun m begun _ => m.Numbered begun) _
    (numbered_new settings) (fun _ v _ _ numbered => numbered.move v) history

/-! ### What became of lint runs -/

variable {settings : LintSettings} {history : List Act}

/-- A lint run that was begun has exactly one of four fates. -/
theorem fates (settings : LintSettings) (history : List Act) :
    ((new settings).begun history).Perm (((new settings).completed history).map Prod.fst ++
      (new settings).crashed history ++ (new settings).cancelled history ++
      ((new settings).after history).flights) := by
  have perm := (registered_new settings).begun_perm history
  have none : (new settings).flights = [] := rfl
  rwa [none, List.append_nil] at perm

theorem nodup_fates (settings : LintSettings) (history : List Act) :
    ((((new settings).completed history).map Prod.fst ++ (new settings).crashed history ++
      (new settings).cancelled history ++
      ((new settings).after history).flights).map Flight.key).Nodup :=
  ((fates settings history).map Flight.key).nodup_iff.1 (numbered_after settings history).keys

theorem mem_flights_of_live {f : Flight} (mem : f ∈ (new settings).live history) :
    f ∈ ((new settings).after history).flights := by
  obtain ⟨begun, going⟩ := List.mem_filter.1 mem
  have fate := (fates settings history).mem_iff.1 begun
  rcases List.mem_append.1 fate with ended | flying
  · exact absurd ended (of_decide_eq_true going)
  · exact flying

/-- A run under way is that of the pipeline registered for its document. -/
theorem Registered.of_flights (reg : m.Registered) {f : Flight} (mem : f ∈ m.flights) :
    ∃ t, m.registered? f.document = some t ∧ t.pipeline.flight? = some f := by
  obtain ⟨q, among, flying⟩ := List.mem_filterMap.1 mem
  obtain ⟨p, t, here, rfl⟩ := (mem_pipelines_iff reg.sorted).1 among
  have own : f.document = t.pipeline.document := by
    unfold Pipeline.flight? at flying
    split at flying
    · rw [← Option.some.inj flying]
      rfl
    · cases flying
  refine ⟨t, reg.of_document here ?_, flying⟩
  rw [own]
  exact Path.same_refl _

private theorem pipeline_of_flight? {p : Pipeline} {f : Flight} (flying : p.flight? = some f) :
    p.id = f.pipeline := by
  unfold Pipeline.flight? at flying
  split at flying
  · rw [← Option.some.inj flying]
    rfl
  · cases flying

private theorem live_pairwise (settings : LintSettings) (history : List Act) :
    ((new settings).live history).Pairwise fun f g => f.document.same g.document = false := by
  have reg := (registered_new settings).after history
  have distinct : ((new settings).live history).Nodup :=
    ((numbered_after settings history).keys.of_map _).filter _
  refine distinct.imp_of_mem ?_
  intro f g here there apart
  by_contra same
  rw [Bool.not_eq_false] at same
  obtain ⟨t, own, flying⟩ := reg.of_flights (mem_flights_of_live here)
  obtain ⟨u, other, flying'⟩ := reg.of_flights (mem_flights_of_live there)
  rw [registered?_congr same, other] at own
  obtain rfl := Option.some.inj own
  rw [flying] at flying'
  exact apart (Option.some.inj flying')

/-! ### Results -/

private theorem mem_sent_of_entered {e : Event} (mem : e ∈ (new settings).entered history) :
    e ∈ (new settings).sent history := by
  have perm := sent_perm (new settings) history
  have none : (new settings).waiting = [] := rfl
  rw [none, List.append_nil] at perm
  exact perm.mem_iff.2 (List.mem_append_left _ (List.mem_append_left _ mem))

/-- Every result that was sent is that of a run that ended. -/
theorem exists_completed_of_sent {e : Event} (mem : e ∈ m.sent history) :
    ∃ c ∈ m.completed history, e = c.1.event c.2 := by
  rw [sent_eq] at mem
  obtain ⟨c, ended, rfl⟩ := List.mem_map.1 mem
  exact ⟨c, ended, rfl⟩

theorem keys_sent (m : Manager) (history : List Act) :
    (m.sent history).map Event.key =
      ((m.completed history).map Prod.fst).map Flight.key := by
  rw [sent_eq, List.map_map, List.map_map]
  rfl

theorem nodup_sent (settings : LintSettings) (history : List Act) :
    (((new settings).sent history).map Event.key).Nodup := by
  have nodup := nodup_fates settings history
  simp only [List.map_append, List.append_assoc] at nodup
  rw [keys_sent]
  exact (List.nodup_append.1 nodup).1

theorem begun_of_completed {c : Flight × LintResult}
    (mem : c ∈ (new settings).completed history) : c.1 ∈ (new settings).begun history := by
  refine (fates settings history).mem_iff.2 ?_
  simp only [List.append_assoc]
  exact List.mem_append_left _ (List.mem_map_of_mem mem)

private theorem not_sent_of_cancelled {f : Flight} (given_up : f ∈ (new settings).cancelled history)
    {e : Event} (mem : e ∈ (new settings).sent history) : e.key ≠ f.key := by
  intro same
  have nodup := nodup_fates settings history
  simp only [List.map_append, List.append_assoc, ← keys_sent] at nodup
  have apart := (List.nodup_append.1 nodup).2.2
  refine apart e.key (List.mem_map_of_mem mem) f.key ?_ same
  exact List.mem_append_right _ (List.mem_append_left _ (List.mem_map_of_mem given_up))

/-! ### Main result -/

/-- At any time at most one lint run of a document is live, and it is the run of the pipeline that
is registered for the document.  A run that was given up never sends a result, let alone one that
enters the queue; and every run that was begun sends at most one. -/
theorem single_flight (settings : LintSettings) (history : List Act) :
    ((new settings).live history).Pairwise (fun f g => f.document.same g.document = false) ∧
      (∀ f ∈ (new settings).live history, ∃ t,
        ((new settings).after history).registered? f.document = some t ∧
          t.pipeline.id = f.pipeline ∧ t.pipeline.flight? = some f) ∧
      (∀ f ∈ (new settings).cancelled history,
        (∀ e ∈ (new settings).entered history, e.key ≠ f.key) ∧
          ∀ e ∈ (new settings).sent history, e.key ≠ f.key) ∧
      (((new settings).begun history).map Flight.key).Nodup ∧
      (((new settings).sent history).map Event.key).Nodup ∧
      ∀ e ∈ (new settings).sent history, ∃ f ∈ (new settings).begun history, ∃ result,
        e = f.event result := by
  refine ⟨live_pairwise settings history, ?_, ?_, ?_, nodup_sent settings history, ?_⟩
  · intro f mem
    have reg := (registered_new settings).after history
    obtain ⟨t, here, flying⟩ := reg.of_flights (mem_flights_of_live mem)
    exact ⟨t, here, pipeline_of_flight? flying, flying⟩
  · intro f given_up
    refine ⟨fun e mem => ?_, fun e mem => not_sent_of_cancelled given_up mem⟩
    exact not_sent_of_cancelled given_up (mem_sent_of_entered mem)
  · exact (numbered_after settings history).keys
  · intro e mem
    obtain ⟨c, ended, rfl⟩ := exists_completed_of_sent mem
    exact ⟨c.1, begun_of_completed ended, c.2, rfl⟩

end ModBench.Manager
