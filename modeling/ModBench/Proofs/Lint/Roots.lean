import ModBench.Proofs.Path.Respelled

/-!
The workspace root of a document.  The roots that contain a path lie on one line of prefixes, so the
deepest of them is below all others; it is the same path in whatever order, how often and in which
spelling the roots are listed.
-/

set_option autoImplicit false
set_option relaxedAutoImplicit false

namespace ModBench

variable {roots roots' : List Path} {p p' root root' : Path}

/-- A path lies at or below another one. -/
def Path.Contains (root p : Path) : Prop :=
  root.components <+: p.components

private theorem Path.startsWith_iff : p.startsWith root = true ↔ root.Contains p :=
  List.isPrefixOf_iff_prefix

/-! ### The deepest of some roots -/

private theorem deeper_some (old first : Path) :
    ∃ winner, deeper (some old) first = some winner ∧ (winner = old ∨ winner = first) ∧
      old.depth ≤ winner.depth ∧ first.depth ≤ winner.depth := by
  unfold deeper
  dsimp only
  split
  · rename_i shallow
    exact ⟨first, rfl, .inr rfl, shallow, Nat.le_refl _⟩
  · rename_i deep
    exact ⟨old, rfl, .inl rfl, Nat.le_refl _, by omega⟩

private theorem foldl_deeper_some (old : Path) (rest : List Path) :
    ∃ winner ∈ old :: rest, rest.foldl deeper (some old) = some winner ∧
      ∀ other ∈ old :: rest, other.depth ≤ winner.depth := by
  induction rest generalizing old with
  | nil => exact ⟨old, List.mem_cons_self, rfl, by simp⟩
  | cons first rest ih =>
    obtain ⟨next, taken, one_of, old_above, first_above⟩ := deeper_some old first
    obtain ⟨winner, mem, won, deepest⟩ := ih next
    have next_above := deepest next List.mem_cons_self
    refine ⟨winner, ?_, by rw [List.foldl_cons, taken, won], fun other among => ?_⟩
    · rcases List.mem_cons.1 mem with rfl | mem
      · rcases one_of with rfl | rfl <;> simp
      · exact List.mem_cons_of_mem _ (List.mem_cons_of_mem _ mem)
    · rcases List.mem_cons.1 among with rfl | among
      · exact Nat.le_trans old_above next_above
      rcases List.mem_cons.1 among with rfl | among
      · exact Nat.le_trans first_above next_above
      · exact deepest other (List.mem_cons_of_mem _ among)

/-- A listed root that contains the path and lies below all listed roots that do. -/
structure DeepestRoot (roots : List Path) (p root : Path) : Prop where
  listed : root ∈ roots
  inside : root.Contains p
  below : ∀ other ∈ roots, other.Contains p → other.Contains root

/-- Of two roots that contain a path the one that is not deeper contains the other one. -/
private theorem contains_of_depth_le (inside : root.Contains p) (inside' : root'.Contains p)
    (shallow : root.depth ≤ root'.depth) : root.Contains root' :=
  List.prefix_of_prefix_length_le inside inside' shallow

/-- There is a deepest root as soon as one root contains the path. -/
theorem workspaceRoot?_cases (roots : List Path) (p : Path) :
    (workspaceRoot? roots p = none ∧ ∀ root ∈ roots, ¬ root.Contains p) ∨
      ∃ root, workspaceRoot? roots p = some root ∧ DeepestRoot roots p root := by
  have kept : ∀ root, root ∈ (roots.filter fun root => p.startsWith root) ↔
      root ∈ roots ∧ root.Contains p := by
    intro root
    rw [List.mem_filter, Path.startsWith_iff]
  unfold workspaceRoot?
  generalize (roots.filter fun root => p.startsWith root) = inside at kept
  cases inside with
  | nil =>
    refine .inl ⟨rfl, fun root listed contains => ?_⟩
    exact List.not_mem_nil ((kept root).2 ⟨listed, contains⟩)
  | cons first rest =>
    obtain ⟨root, mem, won, deepest⟩ := foldl_deeper_some first rest
    obtain ⟨listed, contains⟩ := (kept root).1 mem
    refine .inr ⟨root, won, listed, contains, fun other among contains' => ?_⟩
    exact contains_of_depth_le contains' contains
      (deepest other ((kept other).2 ⟨among, contains'⟩))

theorem deepestRoot_of_workspaceRoot? (won : workspaceRoot? roots p = some root) :
    DeepestRoot roots p root := by
  rcases workspaceRoot?_cases roots p with ⟨none, _⟩ | ⟨other, won', deepest⟩
  · rw [none] at won
    cases won
  · rw [won', Option.some.injEq] at won
    exact won ▸ deepest

private theorem workspaceRoot?_eq_none_iff :
    workspaceRoot? roots p = none ↔ ∀ root ∈ roots, ¬ root.Contains p := by
  rcases workspaceRoot?_cases roots p with ⟨none, outside⟩ | ⟨root, won, deepest⟩
  · exact ⟨fun _ => outside, fun _ => none⟩
  · rw [won]
    exact ⟨nofun, fun outside => absurd deepest.inside (outside root deepest.listed)⟩

/-! ### Lists with the same roots -/

/-- Every root of either list is in the other one, spelled in some way. -/
structure SameRoots (roots roots' : List Path) : Prop where
  there : ∀ root ∈ roots, ∃ root' ∈ roots', root.Respelled root'
  back : ∀ root' ∈ roots', ∃ root ∈ roots, root.Respelled root'

theorem Path.Respelled.contains_iff {q q' : Path} (root_same : q.Respelled q')
    (same : p.Respelled p') : q.Contains p ↔ q'.Contains p' := by
  rw [Contains, Contains, same_iff.1 root_same, same_iff.1 same]

namespace SameRoots

private theorem symm (h : SameRoots roots roots') : SameRoots roots' roots where
  there root' mem := by
    obtain ⟨root, listed, same⟩ := h.back root' mem
    exact ⟨root, listed, Path.same_symm same⟩
  back root mem := by
    obtain ⟨root', listed, same⟩ := h.there root mem
    exact ⟨root', listed, Path.same_symm same⟩

/-- The deepest root among some roots contains the deepest one among the same roots. -/
private theorem contains (h : SameRoots roots roots') (same : p.Respelled p')
    (deepest : DeepestRoot roots p root) (deepest' : DeepestRoot roots' p' root') :
    root.Contains root' := by
  obtain ⟨other, listed, respelled⟩ := h.there root deepest.listed
  have inside : other.Contains p' := (respelled.contains_iff same).1 deepest.inside
  exact (respelled.contains_iff (Path.same_refl root')).2 (deepest'.below other listed inside)

end SameRoots

/-- There is one deepest root up to its spelling. -/
private theorem DeepestRoot.respelled (deepest : DeepestRoot roots p root)
    (deepest' : DeepestRoot roots' p' root') (h : SameRoots roots roots')
    (same : p.Respelled p') : root.Respelled root' := by
  have one := h.contains same deepest deepest'
  have other := h.symm.contains (Path.same_symm same) deepest' deepest
  rw [Path.Respelled, Path.same_iff]
  exact one.eq_of_length (Nat.le_antisymm one.length_le other.length_le)

private theorem workspaceRoot?_of_sameRoots (h : SameRoots roots roots') (same : p.Respelled p') :
    Option.Rel Path.Respelled (workspaceRoot? roots p) (workspaceRoot? roots' p') := by
  rcases workspaceRoot?_cases roots p with ⟨none, outside⟩ | ⟨root, won, deepest⟩
  · rcases workspaceRoot?_cases roots' p' with ⟨none', _⟩ | ⟨root', _, deepest'⟩
    · rw [none, none']
      exact .none
    · obtain ⟨root, listed, respelled⟩ := h.back root' deepest'.listed
      exact absurd ((respelled.contains_iff same).2 deepest'.inside) (outside root listed)
  · rcases workspaceRoot?_cases roots' p' with ⟨_, outside'⟩ | ⟨root', won', deepest'⟩
    · obtain ⟨root', listed, respelled⟩ := h.there root deepest.listed
      exact absurd ((respelled.contains_iff same).1 deepest.inside) (outside' root' listed)
    · rw [won, won']
      exact .some (deepest.respelled deepest' h same)

/-- A path in a directory whose name goes on behind the root's name lies outside the root. -/
private theorem not_contains_sibling {front : List Component} {name more : List UInt8}
    (named : root.components = front ++ [.name name]) (longer : more ≠ [])
    (sibling : front ++ [.name (name ++ more)] <+: p.components) : ¬ root.Contains p := by
  intro inside
  rw [Path.Contains, named] at inside
  have same := (List.prefix_of_prefix_length_le inside sibling (by simp)).eq_of_length (by simp)
  have last := Component.name.inj (List.singleton_inj.1 (List.append_cancel_left same))
  exact longer (List.self_eq_append_right.1 last)

/-- A path has no workspace root exactly if no root contains it.  Otherwise its root is a listed one
that contains it and lies below every other one that does.  It is the same path for every list of
the same roots, however ordered, repeated and spelled, and never a directory whose name is only the
beginning of the name of one that contains the path. -/
theorem deepest_root_wins (roots : List Path) (p : Path) :
    (workspaceRoot? roots p = none ↔ ∀ root ∈ roots, ¬ root.components <+: p.components) ∧
    (∀ root, workspaceRoot? roots p = some root →
      root ∈ roots ∧ root.components <+: p.components ∧
        ∀ other ∈ roots, other.components <+: p.components →
          other.components <+: root.components) ∧
    (∀ roots' p', SameRoots roots roots' → p.Respelled p' →
      Option.Rel Path.Respelled (workspaceRoot? roots p) (workspaceRoot? roots' p')) ∧
    ∀ (root : Path) (front : List Component) (name more : List UInt8),
      root.components = front ++ [.name name] → more ≠ [] →
      front ++ [.name (name ++ more)] <+: p.components → workspaceRoot? roots p ≠ some root := by
  refine ⟨workspaceRoot?_eq_none_iff, fun root won => ?_,
    fun roots' p' => workspaceRoot?_of_sameRoots,
    fun root front name more named longer sibling won => ?_⟩
  · obtain ⟨listed, inside, below⟩ := deepestRoot_of_workspaceRoot? won
    exact ⟨listed, inside, below⟩
  · exact not_contains_sibling named longer sibling (deepestRoot_of_workspaceRoot? won).inside

example : (workspaceRoot? [Path.ofString "/ws"] (Path.ofString "/ws2/a.reds")) = none := by decide

example : (workspaceRoot?
    [Path.ofString "/ws/./lib/", Path.ofString "/ws", Path.ofString "/ws//lib"]
    (Path.ofString "/ws/lib/a.reds")).map Path.toString = some "/ws//lib" := by decide

end ModBench
