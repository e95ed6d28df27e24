import ModBench.Proofs.Path.Spelling

/-!
How a path goes on behind its parent.  A path is spelled as its parent, a slash, stretches that
contribute nothing, and its last component; a path that is a parent ends with that component.
-/

set_option autoImplicit false
set_option relaxedAutoImplicit false

namespace ModBench.Path

open Text (split)

/-- The path ends with the stretch that contributes its last component. -/
def Trimmed (p : Path) : Prop :=
  dropEmptyEnd (split slash (cutStart p.bytes).2) = split slash (cutStart p.bytes).2

theorem dropEmptyEnd_of_last {last : List UInt8} (counts : componentOf last ≠ none)
    (front : List (List UInt8)) : dropEmptyEnd (front ++ [last]) = front ++ [last] := by
  induction front with
  | nil => simp [dropEmptyEnd, counts]
  | cons piece front ih =>
    rw [List.cons_append, dropEmptyEnd, ih]
    cases front <;> rfl

private theorem dropEmptyEnd_dropEmptyEnd (pieces : List (List UInt8)) :
    dropEmptyEnd (dropEmptyEnd pieces) = dropEmptyEnd pieces := by
  rcases dropEmptyEnd_cases pieces with none | ⟨front, last, c, eq, here⟩
  · rw [none]
    rfl
  · rw [eq]
    exact dropEmptyEnd_of_last (by simp [here]) front

/-- How the text of a path is made from that of another one with a slash behind it. -/
structure Continues (p q : Path) (idle : List (List UInt8)) (last : List UInt8)
    (tail : List (List UInt8)) : Prop where
  spelled : p.bytes = q.bytes ++ slash :: Text.join slash (idle ++ last :: tail)
  slashless : ∀ piece ∈ idle ++ last :: tail, slash ∉ piece
  idle_none : ∀ piece ∈ idle, componentOf piece = none
  last_counts : componentOf last ≠ none
  tail_none : ∀ piece ∈ tail, componentOf piece = none

private theorem fileName?_start (start : Start) : (⟨start.bytes⟩ : Path).fileName? = none := by
  cases start <;> rfl

theorem concat_eq_cons (front : List (List UInt8)) (last : List UInt8) :
    ∃ first rest, front ++ [last] = first :: rest ∧ (first :: rest).dropLast = front := by
  cases front with
  | nil => exact ⟨last, [], rfl, rfl⟩
  | cons piece front =>
    refine ⟨piece, front ++ [last], rfl, ?_⟩
    rw [← List.cons_append, List.dropLast_concat]

/-- A path goes on behind a parent that has a name, and the parent is trimmed. -/
theorem parent?_eq_some {p q : Path} (h : p.parent? = some q) (named : q.fileName? ≠ none) :
    q.Trimmed ∧ ∃ idle last tail, Continues p q idle last tail ∧ (p.Trimmed → tail = []) := by
  cases cut : cutStart p.bytes with
  | mk start body =>
    have written : start.bytes ++ body = p.bytes := by
      rw [← bytes_cutStart p.bytes, cut]
    unfold parent? at h
    rw [cut] at h
    dsimp only at h
    rcases dropEmptyEnd_cases (split slash body) with none | ⟨front, last, c, eq, here⟩
    · rw [none] at h
      have empty : q = Path.empty := by
        cases start with
        | slash => cases h
        | dot => exact (Option.some.inj h).symm
        | nothing => cases h
      rw [empty] at named
      exact absurd rfl named
    · obtain ⟨first, rest, listed, kept⟩ := concat_eq_cons front last
      rw [eq, listed] at h
      dsimp only at h
      rw [kept] at h
      obtain rfl := Option.some.inj h
      obtain ⟨tail, pieces, tail_none⟩ := dropEmptyEnd_append (split slash body)
      obtain ⟨idle, fronts, idle_none⟩ := dropEmptyEnd_append front
      have filled : dropEmptyEnd front ≠ [] := by
        intro none
        rw [none, Text.join, List.append_nil] at named
        exact named (fileName?_start start)
      have whole : split slash body = dropEmptyEnd front ++ (idle ++ last :: tail) := by
        conv_lhs => rw [pieces, eq, fronts]
        simp
      have read := cutStart_of_pieces cut filled whole
      have apart : ∀ piece ∈ split slash body, slash ∉ piece := Text.not_mem_of_mem_split slash body
      have shown : split slash (Text.join slash (dropEmptyEnd front)) = dropEmptyEnd front :=
        Text.split_join filled fun piece mem => apart piece (whole ▸ List.mem_append_left _ mem)
      refine ⟨?_, idle, last, tail, ?_, ?_⟩
      · unfold Trimmed
        dsimp only
        rw [read, shown]
        exact dropEmptyEnd_dropEmptyEnd front
      · have joined : body = Text.join slash (dropEmptyEnd front) ++
            slash :: Text.join slash (idle ++ last :: tail) := by
          rw [← Text.join_append filled (by simp), ← whole, Text.join_split]
        refine ⟨?_, fun piece mem => apart piece (whole ▸ List.mem_append_right _ mem), idle_none,
          by simp [here], tail_none⟩
        rw [← written, joined, List.append_assoc]
      · intro trimmed
        unfold Trimmed at trimmed
        rw [cut] at trimmed
        dsimp only at trimmed
        rw [trimmed] at pieces
        exact List.append_right_eq_self.1 pieces.symm

theorem components_of_continues {p q : Path} {idle tail : List (List UInt8)} {last : List UInt8}
    (goes : Continues p q idle last tail) (filled : q.bytes ≠ []) :
    ∃ c, componentOf last = some c ∧ p.components = q.components ++ [c] := by
  obtain ⟨c, counts⟩ := Option.ne_none_iff_exists'.1 goes.last_counts
  refine ⟨c, counts, ?_⟩
  have spelled : p = ⟨q.bytes ++ slash :: Text.join slash (idle ++ last :: tail)⟩ :=
    congrArg Path.mk goes.spelled
  rw [spelled, components_of_append filled, Text.split_join (by simp) goes.slashless]
  have one : namedIn (last :: tail) = c :: namedIn tail := by
    simp [namedIn, counts]
  rw [namedIn_append, one, namedIn_of_idle goes.idle_none, namedIn_of_idle goes.tail_none,
    List.nil_append]

theorem eq_of_componentOf {piece name : List UInt8} (h : componentOf piece = some (.name name)) :
    piece = name ∧ piece ≠ [] ∧ piece ≠ [dot] ∧ piece ≠ [dot, dot] := by
  unfold componentOf at h
  split_ifs at h with none up
  · cases h
  · exact ⟨Component.name.inj (Option.some.inj h), fun e => none (.inl e),
      fun e => none (.inr e), up⟩

/-- A file name is a name. -/
theorem fileName?_eq_some {p : Path} {name : List UInt8} (h : p.fileName? = some name) :
    p.components.getLast? = some (.name name) ∧ slash ∉ name ∧ name ≠ [] ∧
      name ≠ [dot] ∧ name ≠ [dot, dot] := by
  have last := fileName?_eq_some_iff.1 h
  have mem := List.mem_of_getLast? last
  rw [components_eq, List.mem_append] at mem
  have piece : Component.name name ∈ namedIn (split slash (cutStart p.bytes).2) := by
    rcases mem with starts | named
    · cases start : (cutStart p.bytes).1 <;> rw [start] at starts <;>
        simp [Start.components] at starts
    · exact named
  obtain ⟨piece, among, counts⟩ := List.mem_filterMap.1 piece
  obtain ⟨rfl, filled, dot, up⟩ := eq_of_componentOf counts
  exact ⟨last, Text.not_mem_of_mem_split slash _ _ among, filled, dot, up⟩

theorem components_of_parent? {p parent : Path} (h : p.parent? = some parent) :
    ∃ c, p.components = parent.components ++ [c] := by
  rcases components_parent? p with ⟨none, _⟩ | ⟨other, c, is_parent, eq, _⟩
  · rw [none] at h
    cases h
  · rw [is_parent] at h
    obtain rfl := Option.some.inj h
    exact ⟨c, eq⟩

/-- A path of two components or more has a parent, which has all of them but the last. -/
theorem exists_parent? {p : Path} {front : List Component} {c : Component}
    (ends : p.components = front ++ [c]) (more : front ≠ []) :
    ∃ parent, p.parent? = some parent ∧ parent.components = front := by
  rcases components_parent? p with ⟨_, empty | root⟩ | ⟨parent, last, is_parent, eq, _⟩
  · simp [ends] at empty
  · rw [ends] at root
    exact absurd (List.append_eq_singleton_iff.1 root) (by simp [more])
  · rw [ends] at eq
    exact ⟨parent, is_parent, (List.append_inj' eq rfl).1.symm⟩

/-! ### Entries -/

theorem not_isAbsolute_of_slashless {piece : List UInt8} (slashless : slash ∉ piece) :
    (⟨piece⟩ : Path).isAbsolute = false := by
  cases piece with
  | nil => rfl
  | cons b piece =>
    have other : b ≠ slash := fun slashed => slashless (slashed ▸ List.mem_cons_self)
    simp [Path.isAbsolute, other]

theorem componentOf_name {piece : List UInt8} (filled : piece ≠ []) (here : piece ≠ [dot])
    (up : piece ≠ [dot, dot]) : componentOf piece = some (.name piece) := by
  rw [componentOf, if_neg (not_or.2 ⟨filled, here⟩), if_neg up]

/-- An entry has one component more than its directory. -/
theorem components_entry {base : Path} {name : List UInt8} {c : Component}
    (filled : base.bytes ≠ []) (slashless : slash ∉ name) (counts : componentOf name = some c) :
    (base.entry name).components = base.components ++ [c] := by
  rw [entry, components_join (not_isAbsolute_of_slashless slashless) filled,
    Text.split_of_apart slashless]
  simp [namedIn, counts]

theorem trimmed_of_name {piece : List UInt8} (front : List UInt8) (slashless : slash ∉ piece)
    (counts : componentOf piece ≠ none) : Trimmed ⟨front ++ slash :: piece⟩ := by
  unfold Trimmed
  dsimp only
  by_cases root : front = []
  · subst root
    have cut : cutStart ([] ++ slash :: piece) = (.slash, piece) := rfl
    rw [cut, Text.split_of_apart slashless]
    exact dropEmptyEnd_of_last counts []
  · rw [cutStart_append root, Text.split_append_sep, Text.split_of_apart slashless]
    exact dropEmptyEnd_of_last counts _

/-- The parent of a path that goes on behind a trimmed one with a slash and a name. -/
theorem parent?_append_name {base : Path} {piece : List UInt8} (trimmed : base.Trimmed)
    (filled : base.bytes ≠ [])
    (slashless : slash ∉ piece) (counts : componentOf piece ≠ none) :
    parent? ⟨base.bytes ++ slash :: piece⟩ = some base := by
  unfold parent?
  dsimp only
  rw [cutStart_append filled, Text.split_append_sep, Text.split_of_apart slashless]
  dsimp only
  rw [dropEmptyEnd_of_last counts]
  obtain ⟨first, rest, listed, kept⟩ :=
    concat_eq_cons (Text.split slash (cutStart base.bytes).2) piece
  rw [listed]
  dsimp only
  rw [kept, trimmed, Text.join_split, bytes_cutStart]

end ModBench.Path
