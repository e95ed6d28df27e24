import ModBench.Proofs.Files.Walk
import ModBench.Proofs.Path.Parents

/-!
The steps of paths.  What is joined to a path comes behind its steps, and a path has the steps of
its parent, single dots, and the name at its end.
-/

set_option autoImplicit false
set_option relaxedAutoImplicit false

namespace ModBench

/-- No stretch of a text is longer than the text. -/
private theorem Text.length_le_of_mem_split {α : Type} [DecidableEq α] (sep : α) (text : List α) :
    ∀ piece ∈ Text.split sep text, piece.length ≤ text.length := by
  induction text with
  | nil => simp [Text.split]
  | cons c text ih =>
    unfold Text.split
    split
    · intro piece mem
      rcases List.mem_cons.1 mem with rfl | mem
      · exact Nat.zero_le _
      · exact Nat.le_succ_of_le (ih piece mem)
    · cases cut : Text.split sep text with
      | nil => exact absurd cut (Text.split_ne_nil sep text)
      | cons first pieces =>
        rw [cut] at ih
        intro piece mem
        rcases List.mem_cons.1 mem with rfl | mem
        · exact Nat.succ_le_succ (ih first List.mem_cons_self)
        · exact Nat.le_succ_of_le (ih piece (List.mem_cons_of_mem _ mem))

namespace Files

variable {p q base : Path} {name : Name}

/-! ### Cutting -/

theorem stepsOf_slash (front rest : Name) :
    stepsOf ⟨front ++ slash :: rest⟩ = stepsOf ⟨front⟩ ++ stepsOf ⟨rest⟩ := by
  rw [stepsOf, Text.split_append_sep, List.filter_append]
  rfl

theorem stepsOf_join {pieces : List Name} (slashless : ∀ piece ∈ pieces, slash ∉ piece) :
    stepsOf ⟨Text.join slash pieces⟩ = pieces.filter fun piece => !piece.isEmpty := by
  by_cases none : pieces = []
  · rw [none]
    rfl
  · rw [stepsOf, Text.split_join none slashless]

theorem stepsOf_name {piece : Name} (slashless : slash ∉ piece) (filled : piece ≠ []) :
    stepsOf ⟨piece⟩ = [piece] := by
  rw [stepsOf, Text.split_of_apart slashless]
  simp [filled]

/-- No step is longer than its path. -/
theorem length_le_of_mem_stepsOf {step : Name} (mem : step ∈ stepsOf p) :
    step.length ≤ p.bytes.length :=
  Text.length_le_of_mem_split slash p.bytes step (List.mem_filter.1 mem).1

theorem mem_lookupSteps {step : Name} (mem : step ∈ lookupSteps p) :
    step ∈ stepsOf p ∨ step = dotName := by
  unfold lookupSteps at mem
  split at mem
  · simpa using mem
  · exact Or.inl mem

/-! ### Names in directories -/

/-- A name that is joined to a path stands behind it and a slash. -/
theorem join_name {piece : Name} (slashless : slash ∉ piece) (filled : base.bytes ≠ []) :
    (base.entry piece = ⟨base.bytes ++ slash :: piece⟩ ∧ base.bytes.getLast? ≠ some slash) ∨
      ∃ front, base.bytes = front ++ [slash] ∧ base.entry piece = ⟨front ++ slash :: piece⟩ := by
  unfold Path.entry Path.join
  rw [if_neg (by simp [Path.not_isAbsolute_of_slashless slashless])]
  by_cases ends : base.bytes.getLast? = some slash
  · right
    obtain ⟨front, eq⟩ := List.getLast?_eq_some_iff.1 ends
    refine ⟨front, eq, ?_⟩
    rw [if_pos (by simp [ends])]
    simp [eq]
  · left
    refine ⟨?_, ends⟩
    rw [if_neg (by simp [ends, filled])]

theorem stepsOf_join_name {piece : Name} (slashless : slash ∉ piece) (named : piece ≠ [])
    (filled : base.bytes ≠ []) : stepsOf (base.entry piece) = stepsOf base ++ [piece] := by
  rcases join_name slashless filled with ⟨joined, _⟩ | ⟨front, eq, joined⟩
  · rw [joined, stepsOf_slash, stepsOf_name slashless named]
  · have spelled : base = ⟨front ++ slash :: []⟩ := congrArg Path.mk eq
    have idle : stepsOf ⟨[]⟩ = [] := rfl
    rw [joined, stepsOf_slash, stepsOf_name slashless named, spelled, stepsOf_slash, idle,
      List.append_nil]

theorem isAbsolute_join_name {piece : Name} (slashless : slash ∉ piece)
    (filled : base.bytes ≠ []) : (base.entry piece).isAbsolute = base.isAbsolute :=
  Path.isAbsolute_join (Path.not_isAbsolute_of_slashless slashless) filled

theorem endsInSlash_join_name {piece : Name} (slashless : slash ∉ piece) (named : piece ≠ [])
    (filled : base.bytes ≠ []) : endsInSlash (base.entry piece) = false := by
  have last : ∀ front : Name, (front ++ slash :: piece).getLast? ≠ some slash := by
    intro front ends
    rw [List.getLast?_append, List.getLast?_cons] at ends
    obtain ⟨c, eq⟩ := Option.ne_none_iff_exists'.1 (mt List.getLast?_eq_none_iff.1 named)
    rw [eq] at ends
    have slash : c = slash := by simpa using ends
    exact slashless (slash ▸ List.mem_of_getLast? eq)
  have other : ∀ front : Name, endsInSlash ⟨front ++ slash :: piece⟩ = false := by
    intro front
    unfold endsInSlash
    rw [beq_eq_false_iff_ne]
    exact last front
  rcases join_name slashless filled with ⟨joined, _⟩ | ⟨front, _, joined⟩ <;>
    · rw [joined]
      exact other _

theorem join_name_ne_nil {piece : Name} (slashless : slash ∉ piece)
    (filled : base.bytes ≠ []) : (base.entry piece).bytes ≠ [] := by
  rcases join_name slashless filled with ⟨joined, _⟩ | ⟨front, _, joined⟩ <;>
    · rw [joined]
      simp

/-! ### Parents -/

private theorem filter_idle {idle : List Name}
    (none : ∀ piece ∈ idle, Path.componentOf piece = none) :
    ∀ piece ∈ idle.filter (fun piece => !piece.isEmpty), piece = dotName := by
  intro piece mem
  obtain ⟨mem, filled⟩ := List.mem_filter.1 mem
  rcases Path.componentOf_eq_none (none piece mem) with rfl | dot
  · cases filled
  · exact dot

/-- A trimmed path with a name has the steps of its parent, single dots, and its name. -/
theorem stepsOf_of_parent? {last : Name} (parent : p.parent? = some q)
    (named : q.fileName? = some name) (trimmed : p.Trimmed) (ends : p.fileName? = some last) :
    q.Trimmed ∧ p.isAbsolute = q.isAbsolute ∧ endsInSlash p = false ∧
      ∃ dots : List Name, (∀ dot ∈ dots, dot = dotName) ∧
        stepsOf p = stepsOf q ++ (dots ++ [last]) := by
  obtain ⟨q_trimmed, idle, piece, tail, goes, tail_nil⟩ :=
    Path.parent?_eq_some parent (by simp [named])
  obtain rfl := tail_nil trimmed
  have filled : q.bytes ≠ [] := by
    intro empty
    have none : q = ⟨[]⟩ := congrArg Path.mk empty
    rw [none] at named
    cases named
  obtain ⟨c, counts, components⟩ := Path.components_of_continues goes filled
  obtain ⟨last_eq, slashless, last_filled, _⟩ := Path.fileName?_eq_some ends
  rw [components, List.getLast?_append, List.getLast?_singleton, Option.some_or] at last_eq
  rw [Option.some.inj last_eq] at counts
  obtain ⟨rfl, _⟩ := Path.eq_of_componentOf counts
  have spelled : p = ⟨q.bytes ++ slash :: Text.join slash (idle ++ [piece])⟩ :=
    congrArg Path.mk goes.spelled
  refine ⟨q_trimmed, ?_, ?_, idle.filter (fun piece => !piece.isEmpty),
    filter_idle goes.idle_none, ?_⟩
  · rw [spelled, Path.isAbsolute_append filled]
  · obtain ⟨front, eq⟩ : ∃ front, p.bytes = front ++ slash :: piece := by
      by_cases none : idle = []
      · exact ⟨q.bytes, by rw [goes.spelled, none]; rfl⟩
      · refine ⟨q.bytes ++ slash :: Text.join slash idle, ?_⟩
        rw [goes.spelled, Text.join_append none (by simp), List.append_assoc]
        rfl
    have joined : p = Path.entry ⟨front ++ [slash]⟩ piece := by
      unfold Path.entry Path.join
      rw [if_neg (by simp [Path.not_isAbsolute_of_slashless slashless]), if_pos (by simp)]
      have whole : p = ⟨front ++ slash :: piece⟩ := congrArg Path.mk eq
      rw [whole]
      simp
    rw [joined]
    exact endsInSlash_join_name slashless last_filled (by simp)
  · rw [spelled, stepsOf_slash, stepsOf_join goes.slashless, List.filter_append]
    simp [last_filled]

end Files

end ModBench
