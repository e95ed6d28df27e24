import ModBench.Proofs.Files.Altered

/-!
Names of files.  A path at whose end a file is located, no link on the way, ends with the file's
name.
-/

set_option autoImplicit false
set_option relaxedAutoImplicit false

namespace ModBench

private theorem Text.exists_last_piece {α : Type} [DecidableEq α] (sep : α) (text : List α) :
    sep ∉ text ∨ ∃ front piece, text = front ++ sep :: piece ∧ sep ∉ piece := by
  induction text with
  | nil => exact .inl List.not_mem_nil
  | cons c text ih =>
    rcases ih with apart | ⟨front, piece, rfl, apart⟩
    · by_cases cut : c = sep
      · exact .inr ⟨[], text, by rw [cut]; rfl, apart⟩
      · exact .inl fun mem => (List.mem_cons.1 mem).elim (fun same => cut same.symm) apart
    · exact .inr ⟨c :: front, piece, rfl, apart⟩

namespace Path

variable {p : Path} {piece : List UInt8}

/-- The name at the end of a path is its file name. -/
private theorem fileName?_of_last (slashless : slash ∉ piece) (filled : piece ≠ [])
    (here : piece ≠ [dot]) (up : piece ≠ [dot, dot])
    (ends : p.bytes = piece ∨ ∃ front, p.bytes = front ++ slash :: piece) :
    p.fileName? = some piece := by
  have counts := componentOf_name filled here up
  have last : p.components.getLast? = some (.name piece) := by
    have added : namedIn (Text.split slash piece) = [.name piece] := by
      rw [Text.split_of_apart slashless]
      simp [namedIn, counts]
    rcases ends with whole | ⟨front, whole⟩
    · have cut : cutStart piece = (.nothing, piece) := by
        obtain ⟨b, rest, rfl⟩ := List.exists_cons_of_ne_nil filled
        rw [List.mem_cons, not_or] at slashless
        refine cutStart_of_name (Ne.symm slashless.1) ?_
        rintro ⟨rfl, none | slashed⟩
        · exact here (by rw [none])
        · exact slashless.2 (List.mem_of_mem_head? slashed)
      rw [components_eq, whole, cut, added]
      rfl
    · have spelled : p = ⟨front ++ slash :: piece⟩ := congrArg Path.mk whole
      by_cases root : front = []
      · rw [components_eq, whole, root, List.nil_append, cutStart, if_pos rfl, added]
        rfl
      · rw [spelled, components_of_append root, added, List.getLast?_concat]
  rw [fileName?, last]

end Path

namespace Files

/-- The last step of a path that does not end in a slash stands at its end. -/
private theorem exists_last_step {p : Path} (filled : p.bytes ≠ [])
    (unslashed : endsInSlash p = false) :
    ∃ front piece, stepsOf p = front ++ [piece] ∧ slash ∉ piece ∧ piece ≠ [] ∧
      (p.bytes = piece ∨ ∃ front, p.bytes = front ++ slash :: piece) := by
  rcases Text.exists_last_piece slash p.bytes with apart | ⟨front, piece, spelled, apart⟩
  · exact ⟨[], p.bytes, stepsOf_name apart filled, apart, filled, .inl rfl⟩
  · have named : piece ≠ [] := by
      rintro rfl
      rw [endsInSlash, spelled] at unslashed
      simp at unslashed
    have whole : p = ⟨front ++ slash :: piece⟩ := congrArg Path.mk spelled
    have steps : stepsOf p = stepsOf ⟨front⟩ ++ [piece] := by
      rw [whole, stepsOf_slash, stepsOf_name apart named]
    exact ⟨_, piece, steps, apart, named, .inr ⟨front, spelled⟩⟩

namespace Disk

variable {d : Disk} {p : Path} {place : Place} {content : Content}

theorem endsInSlash_of_file (located : d.locate p = .ok place)
    (found : d.tree.find? place = some (.file content)) : endsInSlash p = false := by
  by_contra slashed
  obtain ⟨_, _, led⟩ := exists_leads_of_locate located
  rw [lookupSteps, if_pos (Bool.not_eq_false _ ▸ slashed)] at led
  obtain ⟨_, _, _, last⟩ := led.split rfl
  cases last with
  | here housed more =>
    cases more
    rw [found] at housed
    cases housed
  | enter _ looked => exact absurd rfl looked.here
  | through _ looked => exact absurd rfl looked.here

/-- A path at whose end a file is ends with a name that can be used elsewhere too. -/
theorem named_of_file (linkless : d.tree.Linkless) (housing : d.tree.Housed)
    (spellable : isSpellable p = true) (located : d.locate p = .ok place)
    (found : d.tree.find? place = some (.file content)) :
    ∃ name, p.fileName? = some name ∧ Usable name := by
  have unslashed := endsInSlash_of_file located found
  obtain ⟨fits, left, led⟩ := exists_leads_of_locate located
  obtain ⟨front, piece, steps, slashless, filled, ends⟩ := exists_last_step fits.filled unslashed
  rw [lookupSteps, if_neg (by simp [unslashed])] at led
  have no_directory : d.tree.find? place ≠ some .directory := by simp [found]
  have looked : Tree.Looked piece := by
    obtain ⟨_, _, _, last⟩ := led.split steps
    cases last with
    | here housed more =>
      cases more
      exact absurd housed no_directory
    | up housed more =>
      cases more
      exact absurd (housing.dropLast housed) no_directory
    | enter _ looked => exact looked
    | through _ _ link => exact absurd link (linkless _ _)
  have nulless : 0 ∉ piece := by
    intro mem
    have inside : 0 ∈ p.bytes := by
      rcases ends with whole | ⟨front, whole⟩ <;> simp [whole, mem]
    simp [isSpellable, inside] at spellable
  refine ⟨piece,
    Path.fileName?_of_last slashless filled looked.here looked.up ends, ?_⟩
  constructor
  · exact ⟨filled, slashless, nulless, looked.here, looked.up⟩
  · exact looked.short

/-- A file is written again where it is located. -/
theorem write_of_file (spellable : isSpellable p = true) (located : d.locate p = .ok place)
    (found : d.tree.find? place = some (.file content)) (writable : content.readOnly = false)
    (data : List UInt8) : d.write p data = .ok (d.put place (.file (.bytes data))) := by
  have unslashed := endsInSlash_of_file located found
  have walked := walk_of_locate located
  rw [walk, lookupSteps, if_neg (by simp [unslashed])] at walked
  have opened : d.openToWrite p = .ok place := by
    rw [openToWrite, if_pos spellable, walked]
    simp [unslashed, Tree.isReadOnly, found, writable]
  rw [write, opened]

end Disk

end Files

end ModBench
