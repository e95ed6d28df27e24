import ModBench.Project.Layout
import ModBench.Proofs.Files.Steps
import ModBench.Proofs.Text.Bytes

/-!
Where the parts of a mod lie.  The folder for the game's folder is the entry `r6` of the mod's
directory, and so are the archive and its backup entries of that directory.
-/

set_option autoImplicit false
set_option relaxedAutoImplicit false

namespace ModBench

/-- The component of a name that is text. -/
abbrev Component.text (name : String) : Component :=
  .name (Text.encodeString name)

namespace ModLayout

open Files (Name dotName stepsOf endsInSlash)

variable {l : ModLayout} {script : Path}

/-- How the paths of a mod hang together. -/
structure Coherent (l : ModLayout) : Prop where
  named : l.modDir.fileName? = some (Text.encodeString l.name)
  absolute : l.r6Dir.isAbsolute = l.modDir.isAbsolute
  unslashed : endsInSlash l.r6Dir = false
  steps : ∃ dots : List Name, (∀ dot ∈ dots, dot = dotName) ∧
    stepsOf l.r6Dir = stepsOf l.modDir ++ (dots ++ [Text.encodeString r6Name])

/-- A parent is taken if its components end in the name asked for. -/
theorem parentNamed?_eq_some_iff {p q : Path} {name : String}
    (single : (Path.ofString name).components = [.text name]) :
    parentNamed? p name = some q ↔
      p.parent? = some q ∧ ∃ front, q.components = front ++ [.text name] := by
  have ends_iff : ∀ r : Path, r.endsWith (Path.ofString name) = true ↔
      ∃ front, r.components = front ++ [.text name] := by
    intro r
    rw [Path.endsWith, single, List.isSuffixOf_iff_suffix]
    exact ⟨fun ⟨front, eq⟩ => ⟨front, eq.symm⟩, fun ⟨front, eq⟩ => ⟨front, eq.symm⟩⟩
  unfold parentNamed?
  cases p.parent? with
  | none => simp
  | some r =>
    dsimp only
    by_cases ends : r.endsWith (Path.ofString name) = true
    · rw [if_pos ends]
      constructor
      · intro taken
        obtain rfl := Option.some.inj taken
        exact ⟨rfl, (ends_iff r).1 ends⟩
      · exact fun parent => parent.1
    · rw [if_neg ends]
      constructor
      · intro taken
        cases taken
      · rintro ⟨parent, named⟩
        obtain rfl := Option.some.inj parent
        exact absurd ((ends_iff r).2 named) ends

theorem single_r6Name : (Path.ofString r6Name).components = [.text r6Name] := by decide

theorem single_scriptsName :
    (Path.ofString scriptsName).components = [.text scriptsName] := by decide

private theorem fileName?_of_parentNamed? {p q : Path} (h : parentNamed? p r6Name = some q) :
    p.parent? = some q ∧ q.fileName? = some (Text.encodeString r6Name) := by
  obtain ⟨parent, front, named⟩ := (parentNamed?_eq_some_iff single_r6Name).1 h
  refine ⟨parent, ?_⟩
  rw [Path.fileName?_eq_some_iff, named, List.getLast?_concat]

/-- The paths of a layout are ancestors of the script. -/
theorem ofScript_eq_ok (h : ofScript script = .ok l) : ∃ scriptsDir,
    parentNamed? script scriptsName = some scriptsDir ∧
    parentNamed? scriptsDir r6Name = some l.r6Dir ∧ l.r6Dir.parent? = some l.modDir ∧
    l.modDir.fileName? = some (Text.encodeString l.name) := by
  unfold ofScript at h
  split at h
  · rename_i found
    rw [Except.ok.inj h] at found
    unfold ofScript? at found
    split at found
    · cases found
    rename_i scriptsDir scripts
    split at found
    · cases found
    rename_i r6Dir r6
    split at found
    · cases found
    rename_i modDir parent
    split at found
    · cases found
    rename_i bytes named
    split at found
    · cases found
    rename_i name read
    obtain rfl := Option.some.inj found
    exact ⟨scriptsDir, scripts, r6, parent, Text.decode?_eq_some_iff.1 read ▸ named⟩
  · cases h

/-- The layout of a script is coherent. -/
theorem coherent_of_script (h : ofScript script = .ok l) : l.Coherent := by
  obtain ⟨scriptsDir, _, r6, parent, named⟩ := ofScript_eq_ok h
  obtain ⟨r6_parent, r6_named⟩ := fileName?_of_parentNamed? r6
  obtain ⟨trimmed, _⟩ := Path.parent?_eq_some r6_parent (by simp [r6_named])
  obtain ⟨_, absolute, unslashed, steps⟩ :=
    Files.stepsOf_of_parent? parent named trimmed r6_named
  exact ⟨named, absolute, unslashed, steps⟩

namespace Coherent

variable (h : l.Coherent)
include h

theorem modDir_filled : l.modDir.bytes ≠ [] := by
  intro empty
  have none : l.modDir = ⟨[]⟩ := congrArg Path.mk empty
  have named := h.named
  rw [none] at named
  cases named

theorem r6Dir_filled : l.r6Dir.bytes ≠ [] := by
  intro empty
  obtain ⟨dots, _, steps⟩ := h.steps
  rw [stepsOf, empty] at steps
  simp [Text.split] at steps

/-- What is added to a mod's name gives no path of several names. -/
theorem slashless {ending : String} (plain : slash ∉ Text.encodeString ending) :
    slash ∉ Text.encodeString (l.name ++ ending) := by
  obtain ⟨_, slashless, _⟩ := Path.fileName?_eq_some h.named
  rw [Text.encodeString_append, List.mem_append]
  exact not_or.2 ⟨slashless, plain⟩

theorem name_filled (ending : String) : Text.encodeString (l.name ++ ending) ≠ [] := by
  obtain ⟨_, _, filled, _⟩ := Path.fileName?_eq_some h.named
  rw [Text.encodeString_append]
  exact List.append_ne_nil_of_left_ne_nil filled _

theorem stepsOf_entry {ending : String} (plain : slash ∉ Text.encodeString ending) :
    stepsOf (l.modDir.child (l.name ++ ending)) =
      stepsOf l.modDir ++ [Text.encodeString (l.name ++ ending)] :=
  Files.stepsOf_join_name (h.slashless plain) (h.name_filled ending) h.modDir_filled

end Coherent

end ModLayout

end ModBench
