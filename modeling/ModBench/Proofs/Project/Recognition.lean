import ModBench.Proofs.Path.Respelled
import ModBench.Proofs.Project.Layout

/-!
Recognising a mod by one of its scripts.  The components of such a path end in the mod's name, which
is text, the folders `r6` and `scripts`, and one more component.  Every part of the layout is then
an ancestor of the script or an entry of one, and none of it depends on how the script's path is
spelled.
-/

set_option autoImplicit false
set_option relaxedAutoImplicit false

namespace ModBench.ModLayout

variable {script other : Path} {l l' : ModLayout} {front : List Component} {name : String}

/-- The components of the path end in a mod's name, its two folders and one more component. -/
def IsScriptOf (front : List Component) (name : String) (script : Path) : Prop :=
  ∃ last, script.components =
    front ++ [.text name, .text "r6", .text "scripts", last]

/-- Where the parts of the mod lie that a script belongs to. -/
structure Located (l : ModLayout) (front : List Component) (name : String) (script : Path) :
    Prop where
  named : l.name = name
  modDir : l.modDir.components = front ++ [.text name]
  r6Dir : l.r6Dir.Respelled (l.modDir.child "r6")
  scripts : ∃ parent, script.parent? = some parent ∧ parent.Respelled (l.r6Dir.child "scripts")
  archive : l.archive.components = l.modDir.components ++ [.text (name ++ ".zip")]
  archive_outside : ¬ l.r6Dir.components <+: l.archive.components
  modDir_outside : ¬ l.r6Dir.components <+: l.modDir.components

/-- Layouts with the same name and, up to spelling, the same folders. -/
structure Respelled (l l' : ModLayout) : Prop where
  modDir : l.modDir.Respelled l'.modDir
  r6Dir : l.r6Dir.Respelled l'.r6Dir
  name : l.name = l'.name

/-- Two outcomes that are the same up to the spelling of paths. -/
inductive SameOutcome : Except ProjectFault ModLayout → Except ProjectFault ModLayout → Prop where
  | recognised {l l' : ModLayout} (respelled : l.Respelled l') : SameOutcome (.ok l) (.ok l')
  | invalid {script other : Path} (respelled : script.Respelled other) :
      SameOutcome (.error (.invalidLayout script)) (.error (.invalidLayout other))

/-! ### The ancestors of a script -/

/-- The folders of a layout, one below the other down to the script's own. -/
structure Nested (l : ModLayout) (script : Path) : Prop where
  modDir : ∃ front, l.modDir.components = front ++ [.text l.name]
  r6Dir : l.r6Dir.components = l.modDir.components ++ [.text r6Name]
  scripts : ∃ parent, script.parent? = some parent ∧
    parent.components = l.r6Dir.components ++ [.text scriptsName]

theorem nested_of_script (h : ofScript script = .ok l) : l.Nested script := by
  obtain ⟨scriptsDir, scripts, r6, r6_parent, named⟩ := ofScript_eq_ok h
  obtain ⟨script_parent, inner, scripts_eq⟩ :=
    (parentNamed?_eq_some_iff single_scriptsName).1 scripts
  obtain ⟨scripts_parent, outer, r6_eq⟩ := (parentNamed?_eq_some_iff single_r6Name).1 r6
  obtain ⟨_, scripts_below⟩ := Path.components_of_parent? scripts_parent
  obtain ⟨_, r6_below⟩ := Path.components_of_parent? r6_parent
  rw [scripts_eq] at scripts_below
  rw [r6_eq] at r6_below
  obtain ⟨inner_eq, _⟩ := List.append_inj' scripts_below rfl
  obtain ⟨outer_eq, _⟩ := List.append_inj' r6_below rfl
  refine ⟨?_, ?_, scriptsDir, script_parent, ?_⟩
  · exact List.getLast?_eq_some_iff.1 (Path.fileName?_eq_some_iff.1 named)
  · rw [r6_eq, outer_eq]
  · rw [scripts_eq, inner_eq]

/-- Only a path of the right shape gives a layout. -/
theorem Nested.isScriptOf (h : l.Nested script) :
    ∃ front, IsScriptOf front l.name script ∧
      l.modDir.components = front ++ [.text l.name] := by
  obtain ⟨front, modDir⟩ := h.modDir
  obtain ⟨parent, is_parent, scripts⟩ := h.scripts
  obtain ⟨last, below⟩ := Path.components_of_parent? is_parent
  refine ⟨front, ⟨last, ?_⟩, modDir⟩
  rw [below, scripts, h.r6Dir, modDir]
  simp [r6Name, scriptsName]

/-- Every path of the right shape gives one. -/
theorem exists_layout (h : IsScriptOf front name script) : ∃ l, ofScript script = .ok l := by
  obtain ⟨last, eq⟩ := h
  have script_eq : script.components = (front ++ [.text name, .text r6Name,
      .text scriptsName]) ++ [last] := by
    rw [eq]
    simp [r6Name, scriptsName]
  obtain ⟨scriptsDir, script_parent, scripts_eq⟩ := Path.exists_parent? script_eq (by simp)
  have scripts_last : scriptsDir.components =
      (front ++ [.text name, .text r6Name]) ++ [.text scriptsName] := by
    rw [scripts_eq]
    simp
  obtain ⟨r6Dir, scripts_parent, r6_eq⟩ := Path.exists_parent? scripts_last (by simp)
  have r6_last : r6Dir.components = (front ++ [.text name]) ++ [.text r6Name] := by
    rw [r6_eq]
    simp
  obtain ⟨modDir, r6_parent, mod_eq⟩ := Path.exists_parent? r6_last (by simp)
  have scripts : parentNamed? script scriptsName = some scriptsDir :=
    (parentNamed?_eq_some_iff single_scriptsName).2 ⟨script_parent, _, scripts_last⟩
  have r6 : parentNamed? scriptsDir r6Name = some r6Dir :=
    (parentNamed?_eq_some_iff single_r6Name).2 ⟨scripts_parent, _, r6_last⟩
  have named : modDir.fileName? = some (Text.encodeString name) := by
    rw [Path.fileName?_eq_some_iff, mod_eq, List.getLast?_concat]
  refine ⟨⟨modDir, r6Dir, name⟩, ?_⟩
  simp only [ofScript, ofScript?, scripts, r6, r6_parent, named, Text.decode?_encodeString]

/-- The mod's name and the components before it can be read off the path in one way only. -/
theorem IsScriptOf.unique {front' : List Component} {name' : String}
    (h : IsScriptOf front name script) (h' : IsScriptOf front' name' script) :
    front = front' ∧ name = name' := by
  obtain ⟨last, eq⟩ := h
  obtain ⟨last', eq'⟩ := h'
  obtain ⟨fronts, ends⟩ := List.append_inj' (eq.symm.trans eq') rfl
  exact ⟨fronts, Text.encodeString_inj.1 (Component.name.inj (List.cons.inj ends).1)⟩

private theorem ofScript_eq_error (shapeless : ¬ ∃ front name, IsScriptOf front name script) :
    ofScript script = .error (.invalidLayout script) := by
  cases found : ofScript? script with
  | none => simp only [ofScript, found]
  | some l =>
    have taken : ofScript script = .ok l := by simp only [ofScript, found]
    obtain ⟨front, is_script, _⟩ := (nested_of_script taken).isScriptOf
    exact absurd ⟨front, l.name, is_script⟩ shapeless

private theorem fault_eq {fault : ProjectFault} (failed : ofScript script = .error fault) :
    fault = .invalidLayout script := by
  unfold ofScript at failed
  split at failed
  · cases failed
  · exact (Except.error.inj failed).symm

/-! ### The parts of the mod -/

theorem two_lt_archiveName (name : String) :
    2 < (Text.encodeString (name ++ ".zip")).length := by
  have ending : (Text.encodeString ".zip").length = 4 := by decide
  rw [Text.encodeString_append, List.length_append, ending]
  omega

private theorem Coherent.components_archive (h : l.Coherent) :
    l.archive.components = l.modDir.components ++ [.text (l.name ++ ".zip")] := by
  have long := two_lt_archiveName l.name
  have counts := Path.componentOf_name (h.name_filled ".zip")
    (fun here => by simp [here] at long) (fun up => by simp [up] at long)
  exact Path.components_entry h.modDir_filled (h.slashless (by decide)) counts

/-- No archive is called like the folder for the game's folder. -/
private theorem archiveName_ne_r6Name (name : String) :
    Text.encodeString (name ++ ".zip") ≠ Text.encodeString r6Name := by
  intro same
  have long := two_lt_archiveName name
  rw [same] at long
  exact absurd long (by decide)

private theorem located (found : ofScript script = .ok l)
    (is_script : IsScriptOf front name script) : Located l front name script := by
  have nested := nested_of_script found
  have coherent := coherent_of_script found
  obtain ⟨front', is_script', modDir⟩ := nested.isScriptOf
  obtain ⟨rfl, rfl⟩ := is_script.unique is_script'
  have archive := coherent.components_archive
  have r6_counts : Path.componentOf (Text.encodeString r6Name) = some (.text r6Name) := by decide
  have scripts_counts : Path.componentOf (Text.encodeString scriptsName) =
      some (.text scriptsName) := by decide
  have r6 := Path.components_entry coherent.modDir_filled (by decide) r6_counts
  have scripts_entry := Path.components_entry coherent.r6Dir_filled (by decide) scripts_counts
  obtain ⟨parent, is_parent, scripts⟩ := nested.scripts
  refine ⟨rfl, modDir, ?_, ⟨parent, is_parent, ?_⟩, archive, ?_, ?_⟩
  · exact Path.same_iff.2 (nested.r6Dir.trans r6.symm)
  · exact Path.same_iff.2 (scripts.trans scripts_entry.symm)
  · intro inside
    rw [nested.r6Dir, archive] at inside
    have same := inside.eq_of_length (by simp)
    have last := List.singleton_inj.1 (List.append_cancel_left same)
    exact archiveName_ne_r6Name l.name (Component.name.inj last).symm
  · intro inside
    rw [nested.r6Dir] at inside
    have shorter := inside.length_le
    rw [List.length_append, List.length_singleton] at shorter
    omega

/-! ### Spellings -/

theorem IsScriptOf.respelled (h : IsScriptOf front name script) (same : script.Respelled other) :
    IsScriptOf front name other := by
  obtain ⟨last, eq⟩ := h
  exact ⟨last, (Path.same_iff.1 same).symm.trans eq⟩

private theorem Nested.respelled (h : l.Nested script) (h' : l'.Nested other)
    (same : script.Respelled other) : l.Respelled l' := by
  obtain ⟨front, is_script, modDir⟩ := h.isScriptOf
  obtain ⟨front', is_script', modDir'⟩ := h'.isScriptOf
  obtain ⟨rfl, names⟩ := (is_script.respelled same).unique is_script'
  have mods : l.modDir.components = l'.modDir.components := by rw [modDir, modDir', names]
  refine ⟨Path.same_iff.2 mods, Path.same_iff.2 ?_, names⟩
  rw [h.r6Dir, h'.r6Dir, mods]

private theorem sameOutcome (same : script.Respelled other) :
    SameOutcome (ofScript script) (ofScript other) := by
  by_cases shaped : ∃ front name, IsScriptOf front name script
  · obtain ⟨front, name, is_script⟩ := shaped
    obtain ⟨l, found⟩ := exists_layout is_script
    obtain ⟨l', found'⟩ := exists_layout (is_script.respelled same)
    rw [found, found']
    exact .recognised ((nested_of_script found).respelled (nested_of_script found') same)
  · have shapeless : ¬ ∃ front name, IsScriptOf front name other := fun ⟨front, name, h⟩ =>
      shaped ⟨front, name, h.respelled (Path.same_symm same)⟩
    rw [ofScript_eq_error shaped, ofScript_eq_error shapeless]
    exact .invalid same

/-- A path gives a layout exactly if its components end in a name that is text, `r6`, `scripts` and
one more, and else the fault that names it.  With a layout that name is the mod's, the mod's
directory reaches down to it, the folder for the game's folder and the script's own lie below as
they are called, and the archive is an entry of the mod's directory outside that folder.  A path
with the same components has the same outcome. -/
theorem layout_recognition_is_exact (script : Path) :
    ((∃ l, ofScript script = .ok l) ↔ ∃ front name, IsScriptOf front name script) ∧
    (∀ l front name, ofScript script = .ok l → IsScriptOf front name script →
      Located l front name script) ∧
    (∀ fault, ofScript script = .error fault → fault = .invalidLayout script) ∧
    ∀ other, script.Respelled other → SameOutcome (ofScript script) (ofScript other) := by
  refine ⟨⟨?_, ?_⟩, fun l front name => located, fun fault => fault_eq, fun other => sameOutcome⟩
  · rintro ⟨l, found⟩
    obtain ⟨front, is_script, _⟩ := (nested_of_script found).isScriptOf
    exact ⟨front, l.name, is_script⟩
  · rintro ⟨front, name, is_script⟩
    exact exists_layout is_script

/-- A script's folder reached through `..` and dots belongs to the mod. -/
theorem spelled_out_folder_is_recognised :
    ∃ l, ofScript (Path.ofString "./mods/../mods//a.b/./r6/scripts//./..") = .ok l ∧
      Located l [.here, .text "mods", .up, .text "mods"] "a.b"
        (Path.ofString "./mods/../mods//a.b/./r6/scripts//./..") := by
  have is_script : IsScriptOf [.here, .text "mods", .up, .text "mods"] "a.b"
      (Path.ofString "./mods/../mods//a.b/./r6/scripts//./..") := ⟨.up, by decide⟩
  obtain ⟨recognised, located, _, _⟩ :=
    layout_recognition_is_exact (Path.ofString "./mods/../mods//a.b/./r6/scripts//./..")
  obtain ⟨l, found⟩ := recognised.2 ⟨_, _, is_script⟩
  exact ⟨l, found, located l _ _ found is_script⟩

/-- A path of the shape of a script's, through a directory whose name is no text. -/
def unreadableScript : Path :=
  ⟨Text.encodeString "/mods/" ++ 0xff :: Text.encodeString "/r6/scripts/main.reds"⟩

/-- A mod whose name is no text is not recognised, and of two spellings of a path each gives a fault
that names it as it is spelled. -/
theorem unreadable_name_is_not_recognised :
    (unreadableScript.components = [.root, .text "mods", .name [0xff], .text "r6", .text "scripts",
        .text "main.reds"] ∧
      ofScript unreadableScript = .error (.invalidLayout unreadableScript)) ∧
    (Path.ofString "a//x.reds").Respelled (.ofString "a/x.reds") ∧
      ofScript (.ofString "a//x.reds") ≠ ofScript (.ofString "a/x.reds") := by
  refine ⟨⟨?_, ?_⟩, ?_, ?_⟩ <;> decide

example : ofScript? (Path.ofString "../r6/scripts/a.reds") = none := by decide

end ModBench.ModLayout
