import ModBench.Proofs.Project.Temporary

/-!
The archive and its backup as entries of the mod's directory.  Wherever the mod's directory is
opened, an operation on one of the two does what it does to an entry of that directory.
-/

set_option autoImplicit false
set_option relaxedAutoImplicit false

namespace ModBench

open Files (Disk Tree Place Name Node Content dotName dotsName stepsOf lookupSteps)

namespace ModLayout

/-- The name of something beside the folder for the game's folder. -/
def entryName (l : ModLayout) (ending : String) : Name :=
  Text.encodeString (l.name ++ ending)

def entryPath (l : ModLayout) (ending : String) : Path :=
  l.modDir.child (l.name ++ ending)

theorem archive_eq (l : ModLayout) : l.archive = l.entryPath ".zip" := rfl

theorem backup_eq (l : ModLayout) : l.backup = l.entryPath ".bak" := rfl

/-- Where it stands if the mod's directory is at a place. -/
def entryPlace (l : ModLayout) (ending : String) (modPlace : Place) : Place :=
  modPlace ++ [l.entryName ending]

/-- The entry can be asked for: its path can be handed to the system and is not too long. -/
structure Reachable (l : ModLayout) (ending : String) : Prop where
  spellable : Disk.isSpellable (l.entryPath ending) = true
  fits : Disk.Fits (l.entryPath ending)
  short : (l.entryName ending).length ≤ Files.maxNameLength

end ModLayout

namespace Package

variable {d : Disk} {l : ModLayout} {left : Nat} {D source : Place} {ending : String}

theorem entryName_ne_dots (coherent : l.Coherent) (long : 1 < (Text.encodeString ending).length) :
    l.entryName ending ≠ dotName ∧ l.entryName ending ≠ dotsName := by
  have length : 2 < (l.entryName ending).length := by
    have filled := (Path.fileName?_eq_some coherent.named).2.2.1
    have positive := List.length_pos_iff.2 filled
    rw [ModLayout.entryName, Text.encodeString_append, List.length_append]
    omega
  refine ⟨fun dot => ?_, fun up => ?_⟩
  · rw [dot, dotName] at length
    simp at length
  · rw [up, dotsName] at length
    simp at length

theorem looked_entryName (coherent : l.Coherent) (long : 1 < (Text.encodeString ending).length)
    (short : (l.entryName ending).length ≤ Files.maxNameLength) :
    Tree.Looked (l.entryName ending) :=
  ⟨(entryName_ne_dots coherent long).1, (entryName_ne_dots coherent long).2, short⟩

/-- An ending of a name: no slash in it, and not a short one. -/
structure IsEnding (ending : String) : Prop where
  plain : slash ∉ Text.encodeString ending
  long : 1 < (Text.encodeString ending).length

theorem isEnding_zip : IsEnding ".zip" := ⟨by decide, by decide⟩

theorem isEnding_bak : IsEnding ".bak" := ⟨by decide, by decide⟩

theorem stepsOf_entryPath (coherent : l.Coherent) (e : IsEnding ending) :
    stepsOf (l.entryPath ending) = stepsOf l.modDir ++ [l.entryName ending] :=
  coherent.stepsOf_entry e.plain

theorem entryPath_unslashed (coherent : l.Coherent) (e : IsEnding ending) :
    Files.endsInSlash (l.entryPath ending) = false :=
  Files.endsInSlash_join_name (coherent.slashless e.plain) (coherent.name_filled ending)
    coherent.modDir_filled

theorem entryPath_filled (coherent : l.Coherent) (e : IsEnding ending) :
    (l.entryPath ending).bytes ≠ [] :=
  Files.join_name_ne_nil (coherent.slashless e.plain) coherent.modDir_filled

theorem walk_entryPath (coherent : l.Coherent) (opens : d.Opens l.modDir left D)
    (e : IsEnding ending) (fits : Disk.Fits (l.entryPath ending)) (follow : Bool) :
    d.walkSteps follow (l.entryPath ending) (stepsOf (l.entryPath ending)) =
      d.tree.walk follow left D [l.entryName ending] := by
  have absolute := Files.isAbsolute_join_name (coherent.slashless e.plain) coherent.modDir_filled
  exact opens.walk_entry fits absolute [] (by simp) (by simp) (stepsOf_entryPath coherent e) follow

/-- All entries' paths begin alike. -/
private theorem entryPath_bytes (coherent : l.Coherent) : ∃ front, ∀ ending, IsEnding ending →
    (l.entryPath ending).bytes = front ++ Text.encodeString ending := by
  by_cases ends : l.modDir.bytes.getLast? = some slash
  · refine ⟨l.modDir.bytes ++ Text.encodeString l.name, fun ending e => ?_⟩
    have relative := Path.not_isAbsolute_of_slashless (coherent.slashless e.plain)
    unfold ModLayout.entryPath Path.child Path.entry Path.join
    rw [if_neg (Bool.eq_false_iff.1 relative), if_pos (by simp [ends])]
    simp [Text.encodeString_append]
  · refine ⟨l.modDir.bytes ++ slash :: Text.encodeString l.name, fun ending e => ?_⟩
    have relative := Path.not_isAbsolute_of_slashless (coherent.slashless e.plain)
    unfold ModLayout.entryPath Path.child Path.entry Path.join
    rw [if_neg (Bool.eq_false_iff.1 relative), if_neg (by simp [ends, coherent.modDir_filled])]
    simp [Text.encodeString_append]

/-- Where the archive can be asked for, so can its backup. -/
theorem reachable_backup (coherent : l.Coherent) (reach : l.Reachable ".zip") :
    l.Reachable ".bak" := by
  obtain ⟨front, spelled⟩ := entryPath_bytes coherent
  have zip := spelled _ isEnding_zip
  have bak := spelled _ isEnding_bak
  have sized : ∀ front : Name, (front ++ Text.encodeString ".bak").length =
      (front ++ Text.encodeString ".zip").length := by
    intro front
    have endings : (Text.encodeString ".bak").length = (Text.encodeString ".zip").length := by
      decide
    rw [List.length_append, List.length_append, endings]
  have nulless : 0 ∉ Text.encodeString ".bak" ∧ 0 ∉ Text.encodeString ".zip" := by decide
  refine ⟨?_, ⟨entryPath_filled coherent isEnding_bak, ?_⟩, ?_⟩
  · have spellable := reach.spellable
    unfold Disk.isSpellable at spellable ⊢
    rw [zip] at spellable
    rw [bak]
    simpa [nulless] using spellable
  · have short := reach.fits.short
    rw [zip] at short
    rw [bak, sized]
    exact short
  · have short := reach.short
    rw [ModLayout.entryName, Text.encodeString_append] at short ⊢
    rw [sized]
    exact short

/-! ### Single operations -/

section

variable {t : Tree} {target : Place}

theorem canReplace_file (real : t.find? source ≠ some .directory) :
    Disk.canReplace t source target =
      if t.find? target = some .directory then .error .isADirectory else .ok () := by
  unfold Disk.canReplace
  by_cases housed : t.find? target = some .directory
  · simp [housed, real]
  · simp [housed, real]

theorem canReplace_directory (housed : t.find? source = some .directory)
    (taken : t.find? target = some .directory) :
    Disk.canReplace t source target = if t.hasBelow target then .error .notEmpty else .ok () := by
  unfold Disk.canReplace
  simp [housed, taken]

end

section

variable (coherent : l.Coherent) (opens : d.Opens l.modDir left D) (e : IsEnding ending)
  (reach : l.Reachable ending)
include coherent opens e reach

theorem walk_reachable :
    d.walkSteps false (l.entryPath ending) (stepsOf (l.entryPath ending)) =
      if d.tree.find? (l.entryPlace ending D) = none then
        .ok (.vacant D (l.entryName ending))
      else .ok (.node (l.entryPlace ending D)) := by
  rw [walk_entryPath coherent opens e reach.fits,
    Tree.walk_last opens.housed (looked_entryName coherent e.long reach.short)]
  rfl

/-- Something is moved to an entry that is free. -/
theorem renamePlace_free (free : d.tree.find? (l.entryPlace ending D) = none)
    (loose : source ∉ d.pinned) (loose' : l.entryPlace ending D ∉ d.pinned) :
    d.renamePlace source (l.entryPath ending) =
      .ok (d.withTree (d.tree.move source (l.entryPlace ending D))) := by
  rw [Disk.renamePlace, if_pos reach.spellable, walk_reachable coherent opens e reach,
    if_pos free]
  exact if_neg (by simpa using ⟨loose, loose'⟩)

/-- Something is moved to an entry that is taken. -/
theorem renamePlace_taken (taken : d.tree.find? (l.entryPlace ending D) ≠ none)
    (other : l.entryPlace ending D ≠ source) (loose : source ∉ d.pinned)
    (loose' : l.entryPlace ending D ∉ d.pinned) :
    d.renamePlace source (l.entryPath ending) =
      match Disk.canReplace d.tree source (l.entryPlace ending D) with
      | .error fault => .error (.system fault)
      | .ok () => .ok (d.withTree ((d.tree.delete (l.entryPlace ending D)).move source
          (l.entryPlace ending D))) := by
  rw [Disk.renamePlace, if_pos reach.spellable, walk_reachable coherent opens e reach,
    if_neg taken]
  exact (if_neg other).trans (if_neg (by simpa using ⟨loose, loose'⟩))

/-- Nothing is moved where it must stay as it is. -/
theorem renamePlace_pinned (other : l.entryPlace ending D ≠ source)
    (pinned : source ∈ d.pinned ∨ l.entryPlace ending D ∈ d.pinned) :
    d.renamePlace source (l.entryPath ending) = .error (.system .notPermitted) := by
  rw [Disk.renamePlace, if_pos reach.spellable, walk_reachable coherent opens e reach]
  by_cases free : d.tree.find? (l.entryPlace ending D) = none
  · rw [if_pos free]
    exact if_pos (by simpa [ModLayout.entryPlace] using pinned)
  · rw [if_neg free]
    exact (if_neg other).trans (if_pos (by simpa using pinned))

theorem rename_entry (taken : d.tree.find? (l.entryPlace ending D) ≠ none)
    (destination : Path) :
    d.rename (l.entryPath ending) destination =
      d.renamePlace (l.entryPlace ending D) destination := by
  rw [Disk.rename, if_pos reach.spellable, walk_reachable coherent opens e reach, if_neg taken]

/-- A file or a link is removed, and nothing else is. -/
theorem removeFile_entry :
    (d.removeFile (l.entryPath ending) =
        .ok (d.withTree (d.tree.delete (l.entryPlace ending D))) ∧
      d.tree.find? (l.entryPlace ending D) ≠ none ∧
      d.tree.find? (l.entryPlace ending D) ≠ some .directory ∧
      l.entryPlace ending D ∉ d.pinned) ∨
    (∃ fault, d.removeFile (l.entryPath ending) = .error fault) ∧
      (d.tree.find? (l.entryPlace ending D) = none ∨
        d.tree.find? (l.entryPlace ending D) = some .directory ∨
        l.entryPlace ending D ∈ d.pinned) := by
  rw [Disk.removeFile, if_pos reach.spellable, walk_reachable coherent opens e reach]
  by_cases free : d.tree.find? (l.entryPlace ending D) = none
  · rw [if_pos free]
    exact Or.inr ⟨⟨_, rfl⟩, Or.inl free⟩
  · rw [if_neg free]
    dsimp only
    rw [entryPath_unslashed coherent e, if_neg nofun]
    by_cases pinned : l.entryPlace ending D ∈ d.pinned
    · rw [if_pos (by simpa using pinned)]
      exact Or.inr ⟨⟨_, rfl⟩, Or.inr (Or.inr pinned)⟩
    · rw [if_neg (by simpa using pinned)]
      by_cases housed : d.tree.find? (l.entryPlace ending D) = some .directory
      · rw [if_pos (by simp [housed])]
        exact Or.inr ⟨⟨_, rfl⟩, Or.inr (Or.inl housed)⟩
      · rw [if_neg (by simp [housed])]
        exact Or.inl ⟨rfl, free, housed, pinned⟩

end

/-- Where something in the mod's directory can be moved, that directory can be walked to. -/
theorem leads_of_rename {d' : Disk} (coherent : l.Coherent) (e : IsEnding ending)
    {destination : Path} (renamed : d.rename (l.entryPath ending) destination = .ok d') :
    ∃ left place, d.tree.Leads Files.maxLinks (d.start l.modDir) (stepsOf l.modDir) left place := by
  unfold Disk.rename at renamed
  split at renamed
  · cases walked : d.walkSteps false (l.entryPath ending) (stepsOf (l.entryPath ending)) with
    | error fault =>
      rw [walked] at renamed
      cases renamed
    | ok landing =>
      have absolute : (l.entryPath ending).isAbsolute = l.modDir.isAbsolute :=
        Files.isAbsolute_join_name (coherent.slashless e.plain) coherent.modDir_filled
      rw [Disk.walkSteps_of_fits (Disk.fits_of_walkSteps walked),
        Disk.start_of_isAbsolute absolute, stepsOf_entryPath coherent e] at walked
      exact Tree.leads_of_walk_append (by simp) walked
  · cases renamed

end Package

end ModBench
