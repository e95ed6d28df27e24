import Mathlib.Algebra.Order.BigOperators.Group.List
import Mathlib.Algebra.Order.Ring.Nat
import ModBench.Proofs.Lint.Registry

/-!
Pipelines that go on by themselves: which of them is the next, and how often they do so in all.
-/

set_option autoImplicit false
set_option relaxedAutoImplicit false

namespace ModBench

namespace Pipeline

/-- How often the pipeline goes on by itself. -/
def steps (p : Pipeline) : Nat :=
  match p.phase with
  | .debouncing _ _ => 2
  | .running _ _ _ => 1
  | _ => 0

theorem steps_eq_zero_iff {p : Pipeline} : p.steps = 0 ↔ p.due? = none := by
  cases phase : p.phase <;> simp [steps, due?, phase]

end Pipeline

namespace Manager

variable {m : Manager}

/-! ### The next pipeline -/

theorem sooner_eq_none {best : Option (Nat × Pipeline)} {p : Pipeline}
    (h : sooner best p = none) : best = none ∧ p.due? = none := by
  unfold sooner at h
  split at h
  · rename_i still
    exact ⟨h, still⟩
  · cases h
  · split at h <;> cases h

private theorem sooner_eq_some {best : Option (Nat × Pipeline)} {p q : Pipeline} {due : Nat}
    (h : sooner best p = some (due, q)) :
    (best = some (due, q) ∨ q = p ∧ p.due? = some due) ∧
      (∀ old r, best = some (old, r) → due ≤ old) ∧ ∀ d, p.due? = some d → due ≤ d := by
  unfold sooner at h
  split at h
  · rename_i still
    refine ⟨Or.inl h, ?_, ?_⟩
    · intro old r eq
      rw [eq] at h
      cases h
      exact Nat.le_refl _
    · intro d eq
      rw [still] at eq
      cases eq
  · rename_i found
    cases h
    refine ⟨Or.inr ⟨rfl, found⟩, ?_, ?_⟩
    · intro _ _ eq
      cases eq
    intro d eq
    rw [found] at eq
    cases eq
    exact Nat.le_refl _
  · rename_i d old r found
    split at h
    · rename_i earlier
      cases h
      refine ⟨Or.inr ⟨rfl, found⟩, ?_, ?_⟩
      · rintro _ _ ⟨⟩
        omega
      · intro d' eq
        rw [found] at eq
        cases eq
        exact Nat.le_refl _
    · rename_i later
      cases h
      refine ⟨Or.inl rfl, ?_, ?_⟩
      · rintro _ _ ⟨⟩
        exact Nat.le_refl _
      · intro d' eq
        rw [found] at eq
        cases eq
        omega

private theorem foldl_sooner_eq_none {ps : List Pipeline} {best : Option (Nat × Pipeline)}
    (h : ps.foldl sooner best = none) : best = none ∧ ∀ p ∈ ps, p.due? = none := by
  induction ps generalizing best with
  | nil => exact ⟨h, fun _ mem => absurd mem List.not_mem_nil⟩
  | cons p ps ih =>
    obtain ⟨now, later⟩ := ih h
    obtain ⟨before, own⟩ := sooner_eq_none now
    exact ⟨before, List.forall_mem_cons.2 ⟨own, later⟩⟩

private theorem foldl_sooner_eq_some {ps : List Pipeline} {best : Option (Nat × Pipeline)}
    {due : Nat} {q : Pipeline} (h : ps.foldl sooner best = some (due, q)) :
    (best = some (due, q) ∨ q ∈ ps ∧ q.due? = some due) ∧
      (∀ old r, best = some (old, r) → due ≤ old) ∧
      ∀ p ∈ ps, ∀ d, p.due? = some d → due ≤ d := by
  induction ps generalizing best with
  | nil =>
    refine ⟨Or.inl h, ?_, fun _ mem => absurd mem List.not_mem_nil⟩
    rintro old r rfl
    cases h
    exact Nat.le_refl _
  | cons p ps ih =>
    obtain ⟨source, bound, rest⟩ := ih h
    cases middle : sooner best p with
    | none =>
      obtain ⟨before, own⟩ := sooner_eq_none middle
      rw [middle] at source
      rcases source with eq | ⟨mem, eq⟩
      · cases eq
      · refine ⟨Or.inr ⟨List.mem_cons_of_mem p mem, eq⟩, ?_, ?_⟩
        · rw [before]
          exact fun _ _ eq => by cases eq
        · rw [List.forall_mem_cons, own]
          exact ⟨fun _ eq => (by cases eq), rest⟩
    | some choice =>
      obtain ⟨d, r⟩ := choice
      obtain ⟨source', bound', own⟩ := sooner_eq_some middle
      have le := bound d r middle
      refine ⟨?_, ?_, ?_⟩
      · rcases source with eq | ⟨mem, eq⟩
        · rw [middle] at eq
          cases eq
          rcases source' with eq | ⟨rfl, eq⟩
          · exact Or.inl eq
          · exact Or.inr ⟨List.mem_cons_self, eq⟩
        · exact Or.inr ⟨List.mem_cons_of_mem p mem, eq⟩
      · exact fun old r' eq => Nat.le_trans le (bound' old r' eq)
      · rw [List.forall_mem_cons]
        exact ⟨fun d' eq => Nat.le_trans le (own d' eq), rest⟩

theorem nextDue?_eq_none (h : m.nextDue? = none) : ∀ p ∈ m.pipelines, p.due? = none :=
  (foldl_sooner_eq_none h).2

/-- The next pipeline is one of those that have a time, and none of them has an earlier one. -/
theorem nextDue?_eq_some {due : Nat} {p : Pipeline} (h : m.nextDue? = some (due, p)) :
    p ∈ m.pipelines ∧ p.due? = some due ∧ ∀ q ∈ m.pipelines, ∀ d, q.due? = some d → due ≤ d := by
  obtain ⟨source, _, least⟩ := foldl_sooner_eq_some h
  rcases source with eq | ⟨mem, eq⟩
  · cases eq
  · exact ⟨mem, eq, least⟩

/-! ### The load -/

/-- How often pipelines go on by themselves without a new trigger. -/
def load (m : Manager) : Nat :=
  (m.pipelines.map Pipeline.steps).sum

theorem pipelines_updateById (m : Manager) (id : Nat) (f : Pipeline → Pipeline) :
    (m.updateById id f).pipelines = m.pipelines.map fun p => if p.id = id then f p else p := by
  simp only [pipelines, updateById, List.map_map]
  apply List.map_congr_left
  intro e _
  simp only [Function.comp_apply]
  split <;> rfl

theorem load_le (m : Manager) : m.load ≤ 2 * m.tracked.length := by
  have two : ∀ n ∈ m.pipelines.map Pipeline.steps, n ≤ 2 := by
    intro n mem
    obtain ⟨p, _, rfl⟩ := List.mem_map.1 mem
    unfold Pipeline.steps
    split <;> omega
  have := List.sum_le_card_nsmul _ 2 two
  simpa [load, pipelines, Nat.mul_comm] using this

/-- A change that takes a step from one pipeline and adds none lowers the load. -/
theorem load_updateById_lt {p : Pipeline} (mem : p ∈ m.pipelines) {f : Pipeline → Pipeline}
    (le : ∀ q, (f q).steps ≤ q.steps) (lt : (f p).steps < p.steps) :
    (m.updateById p.id f).load < m.load := by
  rw [load, load, pipelines_updateById, List.map_map]
  apply List.sum_lt_sum
  · intro q _
    simp only [Function.comp_apply]
    split
    · exact le q
    · exact Nat.le_refl _
  · refine ⟨p, mem, ?_⟩
    simp only [Function.comp_apply, if_true]
    exact lt

theorem due?_of_load (load : m.load = 0) : ∀ p ∈ m.pipelines, p.due? = none := by
  intro p mem
  have le := List.single_le_sum (fun _ _ => Nat.zero_le _) p.steps (List.mem_map_of_mem mem)
  apply Pipeline.steps_eq_zero_iff.1
  unfold Manager.load at load
  omega

end Manager

end ModBench
