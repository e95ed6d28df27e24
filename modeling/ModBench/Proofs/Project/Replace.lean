import ModBench.Proofs.Project.Entries

/-!
How the finished file takes the archive's place.  A file or a link there is replaced.  A directory
there is moved aside with all in it, in place of a file, a link or an empty directory that the
backup's place had; the mod's path must then not have led through any of these.  What must stay in
the archive's place stays, and a file or a link in the backup's may be gone.
-/

set_option autoImplicit false
set_option relaxedAutoImplicit false

namespace ModBench

open Files (Disk Tree Place Name Node Content ArchiveEntry dotName stepsOf lookupSteps)
open ModLayout (archive_eq backup_eq)

namespace Package

/-- The archive holds these entries, and nothing else differs. -/
structure Archived (d d' : Disk) (archive : Place) (entries : List ArchiveEntry) : Prop where
  cwd : d'.cwd = d.cwd
  written : d'.tree.find? archive = some (.file (.archive entries))
  others : ∀ place, place ≠ archive → d'.tree.find? place = d.tree.find? place

/-- The archive holds these entries, all that stood at and below its place stands at and below the
backup's, below which nothing stood before, and nothing else differs. -/
structure SetAside (d d' : Disk) (archive backup : Place) (entries : List ArchiveEntry) : Prop where
  cwd : d'.cwd = d.cwd
  written : d'.tree.find? archive = some (.file (.archive entries))
  emptied : ∀ rest, rest ≠ [] → d'.tree.find? (archive ++ rest) = none
  aside : ∀ rest, d'.tree.find? (backup ++ rest) = d.tree.find? (archive ++ rest)
  room : ∀ rest, rest ≠ [] → d.tree.find? (backup ++ rest) = none
  others : ∀ place, ¬ archive <+: place → ¬ backup <+: place →
    d'.tree.find? place = d.tree.find? place

variable {d d' : Disk} {l : ModLayout} {left : Nat} {D : Place} {n : Name} {node : Node}
  {es : List ArchiveEntry} {p : Path}

/-! ### The temporary file -/

theorem place_of_opens (opens : d.Opens p left D) (n : Name) :
    (⟨p, n⟩ : Temporary).place d = .ok (D ++ [n]) := by
  unfold Temporary.place
  rw [Disk.walkSteps_dot_iff.2 ⟨left, opens⟩]

theorem settle_of_opens (opens : d.Opens p left D) (there : d.tree.find? (D ++ [n]) ≠ none)
    (destination : Path) :
    settle d ⟨p, n⟩ destination = d.renamePlace (D ++ [n]) destination := by
  obtain ⟨node, found⟩ := Option.ne_none_iff_exists'.1 there
  unfold settle
  rw [place_of_opens opens]
  dsimp only
  rw [found]

/-- Where a temporary file can be moved from, its directory is opened. -/
private theorem opens_of_settle {destination : Path}
    (settled : settle d ⟨p, n⟩ destination = .ok d') : ∃ left place, d.Opens p left place := by
  unfold settle Temporary.place at settled
  cases walked : d.walkSteps true p (stepsOf p ++ [dotName]) with
  | error fault =>
    rw [walked] at settled
    cases settled
  | ok landing =>
    rw [walked] at settled
    cases landing with
    | node place =>
      obtain ⟨left, opens⟩ := Disk.walkSteps_dot_iff.1 walked
      exact ⟨left, place, opens⟩
    | vacant directory name => cases settled

theorem opens_put (unused : d.tree.Unused n) (opens : d.Opens p left D) (node : Node) :
    (d.put (D ++ [n]) node).Opens p left D :=
  opens.mono rfl (Tree.within_put (unused.find?_new D) node)

/-- The temporary file is taken away without a trace. -/
theorem discard_put (unused : d.tree.Unused n) (opens : d.Opens p left D) (node : Node) :
    discard (d.put (D ++ [n]) node) ⟨p, n⟩ = d := by
  unfold discard
  rw [place_of_opens (opens_put unused opens node)]
  have restored : (d.tree.put (D ++ [n]) node).delete (D ++ [n]) = d.tree :=
    Tree.delete_put (by simp) (unused.new D) node
  exact congrArg d.withTree restored

/-- A temporary file was opened in the mod's directory, under a name not in use. -/
theorem openTemporary_eq_ok {temporary : Temporary} {place : Place}
    (opened : openTemporary d p = .ok (temporary, place)) :
    ∃ left D, d.Opens p left D ∧ temporary = ⟨p, freshName d p⟩ ∧
      place = D ++ [freshName d p] := by
  unfold openTemporary at opened
  dsimp only at opened
  split at opened
  · split at opened
    · cases opened
    split at opened
    · rename_i found
      obtain ⟨rfl, rfl⟩ := Prod.mk.inj (Except.ok.inj opened)
      unfold Temporary.place at found
      split at found
      · rename_i D walked
        obtain ⟨left, opens⟩ := Disk.walkSteps_dot_iff.1 walked
        exact ⟨left, D, opens, rfl, (Except.ok.inj found).symm⟩
      · cases found
      · cases found
    · cases opened
  · cases opened

/-! ### An archive that cannot be asked for -/

/-- Such an archive is not found, and nothing can be moved there. -/
private theorem unreachable_archive (coherent : l.Coherent) (opens : d.Opens l.modDir left D)
    (unreachable : ¬ l.Reachable ".zip") (source : Place) :
    (∃ fault, d.renamePlace source l.archive = .error fault) ∧ d.exists? l.archive = false := by
  have lookup : lookupSteps (l.entryPath ".zip") = stepsOf (l.entryPath ".zip") := by
    rw [lookupSteps, entryPath_unslashed coherent isEnding_zip]
    rfl
  unfold Disk.renamePlace Disk.exists? Disk.status? Disk.locate Disk.walk
  rw [archive_eq, lookup]
  by_cases spellable : Disk.isSpellable (l.entryPath ".zip") = true
  · rw [if_pos spellable, if_pos spellable]
    -- Every walk there fails: the path or the name is too long.
    have fails : ∀ follow, d.walkSteps follow (l.entryPath ".zip")
        (stepsOf (l.entryPath ".zip")) = .error .nameTooLong := by
      intro follow
      by_cases fits : Disk.Fits (l.entryPath ".zip")
      · have long : Files.maxNameLength < (l.entryName ".zip").length := by
          by_contra short
          exact unreachable ⟨spellable, fits, Nat.not_lt.1 short⟩
        obtain ⟨dot, up⟩ := entryName_ne_dots coherent isEnding_zip.long
        rw [walk_entryPath coherent opens isEnding_zip fits,
          Tree.walk_last_long opens.housed dot up long]
      · have filled := entryPath_filled coherent isEnding_zip
        have long : Files.maxPathLength ≤ (l.entryPath ".zip").bytes.length := by
          by_contra short
          exact fits ⟨filled, Nat.not_le.1 short⟩
        rw [Disk.walkSteps, if_neg (by simp [filled]), if_pos long]
    rw [fails, fails]
    exact ⟨⟨_, rfl⟩, rfl⟩
  · rw [if_neg spellable, if_neg spellable]
    exact ⟨⟨_, rfl⟩, rfl⟩

/-- A directory in the archive's place is found there. -/
private theorem exists_archive (coherent : l.Coherent) (opens : d.Opens l.modDir left D)
    (reach : l.Reachable ".zip")
    (housed : d.tree.find? (l.entryPlace ".zip" D) = some .directory) :
    d.exists? l.archive = true := by
  have lookup : lookupSteps (l.entryPath ".zip") = stepsOf (l.entryPath ".zip") := by
    rw [lookupSteps, entryPath_unslashed coherent isEnding_zip]
    rfl
  have walked : d.walk true (l.entryPath ".zip") = .ok (.node (l.entryPlace ".zip" D)) := by
    rw [Disk.walk, lookup, walk_entryPath coherent opens isEnding_zip reach.fits,
      Tree.walk_looked opens.housed (looked_entryName coherent isEnding_zip.long reach.short)]
    have found : d.tree.find? (D ++ [l.entryName ".zip"]) = some .directory := housed
    rw [found]
    exact Tree.walk_nil _ _ _ _
  unfold Disk.exists? Disk.status? Disk.locate
  rw [archive_eq, if_pos reach.spellable, walked]
  dsimp only
  rw [housed]
  rfl

/-- Nothing is found there if nothing stands in the archive's place. -/
private theorem not_exists_archive (coherent : l.Coherent) (opens : d.Opens l.modDir left D)
    (reach : l.Reachable ".zip") (free : d.tree.find? (l.entryPlace ".zip" D) = none) :
    d.exists? l.archive = false := by
  have lookup : lookupSteps (l.entryPath ".zip") = stepsOf (l.entryPath ".zip") := by
    rw [lookupSteps, entryPath_unslashed coherent isEnding_zip]
    rfl
  have walked : d.walk true (l.entryPath ".zip") = .ok (.vacant D (l.entryName ".zip")) := by
    rw [Disk.walk, lookup, walk_entryPath coherent opens isEnding_zip reach.fits,
      Tree.walk_looked opens.housed (looked_entryName coherent isEnding_zip.long reach.short)]
    have absent : d.tree.find? (D ++ [l.entryName ".zip"]) = none := free
    rw [absent]
    rfl
  unfold Disk.exists? Disk.status? Disk.locate
  rw [archive_eq, if_pos reach.spellable, walked]
  rfl

/-! ### Places in the mod's directory -/

theorem entryPlace_ne_nil (l : ModLayout) (ending : String) (D : Place) :
    l.entryPlace ending D ≠ [] := by
  simp [ModLayout.entryPlace]

theorem unrelated_zip_bak (l : ModLayout) (D : Place) :
    Tree.Unrelated (l.entryPlace ".zip" D) (l.entryPlace ".bak" D) := by
  refine Tree.unrelated_of_ne (fun same => ?_) D
  unfold ModLayout.entryName at same
  rw [Text.encodeString_append, Text.encodeString_append] at same
  have endings := List.append_cancel_left same
  revert endings
  decide

/-- Nothing stands at an unused name or below it, but for what was put there. -/
theorem find?_staged (unused : d.tree.Unused n) (D : Place) (node : Node) :
    (∀ rest, d.tree.find? (D ++ [n] ++ rest) = none) ∧
    (d.put (D ++ [n]) node).tree.find? (D ++ [n]) = some node ∧
    (∀ rest, rest ≠ [] → (d.put (D ++ [n]) node).tree.find? (D ++ [n] ++ rest) = none) ∧
    ∀ place, ¬ D ++ [n] <+: place →
      (d.put (D ++ [n]) node).tree.find? place = d.tree.find? place := by
  have absent : ∀ rest, d.tree.find? (D ++ [n] ++ rest) = none := by
    intro rest
    by_contra there
    exact unused.not_mem_of_find? there (by simp)
  refine ⟨absent, Tree.find?_put_self (by simp) node, fun rest filled => ?_, fun place apart => ?_⟩
  · have longer : D ++ [n] ++ rest ≠ D ++ [n] := by
      simp [filled]
    exact (Tree.find?_put_ne longer node).trans (absent rest)
  · refine Tree.find?_put_ne (fun eq => apart ?_) node
    exact eq ▸ List.prefix_rfl

/-- What was there is not touched by what is put under an unused name. -/
theorem find?_staged_of_there (unused : d.tree.Unused n) (D : Place) (node : Node) {place : Place}
    (there : d.tree.find? place ≠ none) :
    (d.put (D ++ [n]) node).tree.find? place = d.tree.find? place :=
  Tree.Unused.find?_put D node (unused.not_mem_of_find? there)

/-! ### The file in the archive's place -/

section

variable (coherent : l.Coherent) (opens : d.Opens l.modDir left D) (unused : d.tree.Unused n)
  (loose : D ++ [n] ∉ d.pinned)

include unused in
/-- A file that was put under an unused name is moved to the archive's place, which is free. -/
private theorem archived_of_move (order : d.tree.InOrder)
    (apart : Tree.Unrelated (D ++ [n]) (l.entryPlace ".zip" D)) {t : Tree}
    (free : ∀ rest, t.find? (l.entryPlace ".zip" D ++ rest) = none)
    (kept : ∀ place, place ≠ l.entryPlace ".zip" D →
      t.find? place = (d.put (D ++ [n]) (.file (.archive es))).tree.find? place)
    (real : d.tree.find? (l.entryPlace ".zip" D) ≠ some .directory) :
    Archived d (d.withTree (t.move (D ++ [n]) (l.entryPlace ".zip" D)))
      (l.entryPlace ".zip" D) es := by
  obtain ⟨arrived, gone, still⟩ := Tree.find?_move (by simp) (entryPlace_ne_nil l _ D) apart free
  obtain ⟨absent, here, alone, others⟩ := find?_staged unused D (.file (.archive es))
  refine ⟨rfl, ?_, fun place other => ?_⟩
  · have found := arrived []
    rw [List.append_nil, List.append_nil, kept _ apart.symm.ne, here] at found
    exact found
  · by_cases from_source : D ++ [n] <+: place
    · obtain ⟨rest, rfl⟩ := from_source
      exact (gone rest).trans (absent rest).symm
    · by_cases from_target : l.entryPlace ".zip" D <+: place
      · obtain ⟨rest, rfl⟩ := from_target
        have filled : rest ≠ [] := by
          rintro rfl
          exact other (List.append_nil _)
        have found := arrived rest
        rw [kept _ (apart.symm.append_ne rest), alone rest filled] at found
        exact found.trans (order.find?_below filled real).symm
      · have found := still place from_source from_target
        rw [kept place other, others place from_source] at found
        exact found

include coherent opens unused loose in
/-- Where no directory is in the way, and nothing that must stay, the file takes the archive's
place. -/
theorem persist_plain (es : List ArchiveEntry) (order : d.tree.InOrder)
    (apart : Tree.Unrelated (D ++ [n]) (l.entryPlace ".zip" D)) (reach : l.Reachable ".zip")
    (real : d.tree.find? (l.entryPlace ".zip" D) ≠ some .directory)
    (loose_zip : l.entryPlace ".zip" D ∉ d.pinned) :
    ∃ d', persist (d.put (D ++ [n]) (.file (.archive es))) l ⟨l.modDir, n⟩ = (.ok (), d') ∧
      Archived d d' (l.entryPlace ".zip" D) es := by
  let staged := d.put (D ++ [n]) (.file (.archive es))
  have staged_opens : staged.Opens l.modDir left D := opens_put unused opens _
  obtain ⟨_, here, _, others⟩ := find?_staged unused D (.file (.archive es))
  have same : ∀ rest, staged.tree.find? (l.entryPlace ".zip" D ++ rest) =
      d.tree.find? (l.entryPlace ".zip" D ++ rest) := fun rest =>
    others _ (apart.not_prefix_append rest)
  have bare : ∀ rest, rest ≠ [] → staged.tree.find? (l.entryPlace ".zip" D ++ rest) = none :=
    fun rest filled => (same rest).trans (order.find?_below filled real)
  have at_archive := same []
  rw [List.append_nil] at at_archive
  have settled := settle_of_opens (n := n) staged_opens (by simp [staged, here]) l.archive
  unfold persist
  by_cases free : d.tree.find? (l.entryPlace ".zip" D) = none
  · rw [settled, archive_eq, renamePlace_free coherent staged_opens isEnding_zip reach
      (at_archive.trans free) loose loose_zip]
    refine ⟨_, rfl, archived_of_move unused order apart (fun rest => ?_) (fun _ _ => rfl) real⟩
    by_cases last : rest = []
    · rw [last, List.append_nil]
      exact at_archive.trans free
    · exact bare rest last
  · have source_real : staged.tree.find? (D ++ [n]) ≠ some .directory := by
      simp [staged, here]
    rw [settled, archive_eq, renamePlace_taken coherent staged_opens isEnding_zip reach
      (by rwa [at_archive]) apart.ne loose loose_zip, canReplace_file source_real,
      if_neg (by rwa [at_archive])]
    refine ⟨_, rfl, archived_of_move unused order apart (fun rest => ?_)
      (fun place other => Tree.find?_delete_ne _ other) real⟩
    exact Tree.find?_delete_append (entryPlace_ne_nil l _ D) bare rest

include coherent opens unused in
/-- An archive that cannot be asked for is not written. -/
theorem persist_unreachable (node : Node) (unreachable : ¬ l.Reachable ".zip") :
    ∃ fault, persist (d.put (D ++ [n]) node) l ⟨l.modDir, n⟩ = (.error fault, d) := by
  have staged_opens := opens_put unused opens node
  have here := (find?_staged unused D node).2.1
  obtain ⟨⟨fault, fails⟩, missing⟩ :=
    unreachable_archive coherent staged_opens unreachable (D ++ [n])
  refine ⟨fault, ?_⟩
  unfold persist
  rw [settle_of_opens staged_opens (by simp [here]), fails]
  dsimp only
  rw [missing, discard_put unused opens]
  rfl

end

/-! ### A directory in the archive's place -/

/-- What opens without the two places opens on every disk that keeps all others and has a directory
where the second one was an empty directory. -/
theorem opens_of_kept {a b : Place} (ha : a ≠ []) (hb : b ≠ [])
    (clear : ((d.withoutFile b).withoutAll a).Opens p left D) (cwd : d'.cwd = d.cwd)
    (loose : b ∉ d.pinned)
    (room : ∀ rest, rest ≠ [] → d.tree.find? (b ++ rest) = none)
    (stays : d.tree.find? b = some .directory → d'.tree.find? b = some .directory)
    (kept : ∀ place, ¬ a <+: place → ¬ b <+: place → d.tree.find? place ≠ none →
      d'.tree.find? place = d.tree.find? place) : d'.Opens p left D := by
  refine clear.mono (cwd.trans (Disk.cwd_withoutFile d b).symm) fun place node found => ?_
  obtain ⟨found, under_a⟩ := Disk.find?_of_withoutAll ha found
  obtain ⟨found, housed⟩ := Disk.find?_of_withoutFile hb found
  by_cases under_b : b <+: place
  · obtain ⟨rest, rfl⟩ := under_b
    by_cases last : rest = []
    · rw [last, List.append_nil] at found ⊢
      have directory := (housed ⟨rest, rfl⟩).resolve_right loose
      rw [stays directory, ← directory, found]
    · rw [room rest last] at found
      cases found
  · rw [kept place under_a under_b (by simp [found]), found]

/-- A tree in which the place of the backup is free, and which is otherwise as it was. -/
structure Vacated (d : Disk) (staged : Tree) (place : Place) (t : Tree) : Prop where
  loose : place ∉ d.pinned
  free : ∀ rest, t.find? (place ++ rest) = none
  kept : ∀ other, ¬ place <+: other → t.find? other = staged.find? other
  room : ∀ rest, rest ≠ [] → d.tree.find? (place ++ rest) = none

theorem vacated_delete {t : Tree} {place : Place} (root : place ≠ []) (loose : place ∉ d.pinned)
    (bare : ∀ rest, rest ≠ [] → t.find? (place ++ rest) = none)
    (same : ∀ rest, t.find? (place ++ rest) = d.tree.find? (place ++ rest)) :
    Vacated d t place (t.delete place) where
  loose := loose
  free := Tree.find?_delete_append root bare
  kept _ apart := Tree.find?_delete_ne _ fun eq => apart (eq ▸ List.prefix_rfl)
  room rest filled := (same rest).symm.trans (bare rest filled)

section

variable (order : d.tree.InOrder) (coherent : l.Coherent) (unused : d.tree.Unused n)
  (not_zip : Tree.Unrelated (D ++ [n]) (l.entryPlace ".zip" D))
  (not_bak : Tree.Unrelated (D ++ [n]) (l.entryPlace ".bak" D))
  (loose : D ++ [n] ∉ d.pinned) (loose_zip : l.entryPlace ".zip" D ∉ d.pinned)
  (opens : d.Opens l.modDir left D)
  (passes : (d.withoutFile (l.entryPlace ".bak" D)).Opens l.modDir left D)
  (clear : ((d.withoutFile (l.entryPlace ".bak" D)).withoutAll (l.entryPlace ".zip" D)).Opens
    l.modDir left D)
  (reach : l.Reachable ".zip")
  (housed : d.tree.find? (l.entryPlace ".zip" D) = some .directory)

include unused passes in
/-- The mod's directory stays open when a file or a link in the backup's place is gone. -/
theorem opens_vacated {t : Tree}
    (real : d.tree.find? (l.entryPlace ".bak" D) ≠ some .directory)
    (vacated : Vacated d (d.put (D ++ [n]) node).tree (l.entryPlace ".bak" D) t) :
    (d.withTree t).Opens l.modDir left D := by
  refine passes.mono (Disk.cwd_withoutFile d _).symm fun place node found => ?_
  obtain ⟨found, under⟩ := Disk.find?_of_withoutFile (entryPlace_ne_nil l _ D) found
  have outside : ¬ l.entryPlace ".bak" D <+: place := fun inside =>
    (under inside).elim real vacated.loose
  exact (vacated.kept place outside).trans
    ((find?_staged_of_there unused D _ (by simp [found])).trans found)

include unused clear housed in
/-- The mod's directory stays open when the directory in the archive's place was moved aside. -/
private theorem opens_aside {t : Tree} (loose_bak : l.entryPlace ".bak" D ∉ d.pinned)
    (room : ∀ rest, rest ≠ [] → d.tree.find? (l.entryPlace ".bak" D ++ rest) = none)
    (aside : t.find? (l.entryPlace ".bak" D) = d.tree.find? (l.entryPlace ".zip" D))
    (kept : ∀ place, ¬ l.entryPlace ".zip" D <+: place → ¬ l.entryPlace ".bak" D <+: place →
      t.find? place = (d.put (D ++ [n]) node).tree.find? place) :
    (d.withTree t).Opens l.modDir left D := by
  refine opens_of_kept (entryPlace_ne_nil l _ D) (entryPlace_ne_nil l _ D) clear rfl loose_bak room
    (fun _ => aside.trans housed) fun place under_zip under_bak there => ?_
  exact (kept place under_zip under_bak).trans (find?_staged_of_there unused D _ there)

include coherent unused not_zip loose_zip passes reach housed in
/-- The directory is moved to where nothing is. -/
private theorem rename_vacated {t : Tree}
    (real : d.tree.find? (l.entryPlace ".bak" D) ≠ some .directory)
    (vacated : Vacated d (d.put (D ++ [n]) node).tree (l.entryPlace ".bak" D) t) :
    (d.withTree t).rename l.archive l.backup =
      .ok (d.withTree (t.move (l.entryPlace ".zip" D) (l.entryPlace ".bak" D))) := by
  have opens := opens_vacated unused passes real vacated
  have source : (d.withTree t).tree.find? (l.entryPlace ".zip" D) ≠ none := by
    have found := vacated.kept _ (unrelated_zip_bak l D).not_above
    rw [(find?_staged unused D _).2.2.2 _ not_zip.not_below, housed] at found
    exact found ▸ Option.some_ne_none _
  have free := vacated.free []
  rw [List.append_nil] at free
  rw [archive_eq, backup_eq, rename_entry coherent opens isEnding_zip reach source,
    renamePlace_free coherent opens isEnding_bak (reachable_backup coherent reach) free loose_zip
      vacated.loose]
  rfl

include order not_bak in
/-- Below the backup's place the staged disk has what the disk has, and nothing at all unless that
is a directory. -/
theorem backup_staged (node : Node) :
    (∀ rest, (d.put (D ++ [n]) node).tree.find? (l.entryPlace ".bak" D ++ rest) =
      d.tree.find? (l.entryPlace ".bak" D ++ rest)) ∧
    (d.tree.find? (l.entryPlace ".bak" D) ≠ some .directory → ∀ rest, rest ≠ [] →
      (d.put (D ++ [n]) node).tree.find? (l.entryPlace ".bak" D ++ rest) = none) := by
  have same : ∀ rest, (d.put (D ++ [n]) node).tree.find? (l.entryPlace ".bak" D ++ rest) =
      d.tree.find? (l.entryPlace ".bak" D ++ rest) := fun rest =>
    Tree.find?_put_ne (not_bak.append_ne rest) node
  exact ⟨same, fun real rest filled => (same rest).trans (order.find?_below filled real)⟩

include order coherent not_bak opens reach unused in
/-- A file or a link in the backup's place is taken away, and a directory or what must stay there is
not. -/
theorem cleared_cases (node : Node) :
    let staged := d.put (D ++ [n]) node
    let cleared := attempt staged (staged.removeFile l.backup)
    (d.tree.find? (l.entryPlace ".bak" D) ≠ some .directory ∧
      cleared = d.withTree (staged.tree.delete (l.entryPlace ".bak" D)) ∧
      Vacated d staged.tree (l.entryPlace ".bak" D)
        (staged.tree.delete (l.entryPlace ".bak" D))) ∨
    (d.tree.find? (l.entryPlace ".bak" D) = some .directory ∨ l.entryPlace ".bak" D ∈ d.pinned) ∧
      cleared = staged := by
  intro staged cleared
  obtain ⟨same, bare_of_real⟩ := backup_staged order not_bak node
  have at_backup := same []
  rw [List.append_nil] at at_backup
  have root := entryPlace_ne_nil l ".bak" D
  rcases removeFile_entry coherent (opens_put unused opens node) isEnding_bak
      (reachable_backup coherent reach) with
    ⟨removed, _, real, loose⟩ | ⟨⟨fault, refused⟩, state⟩
  · left
    have eq : cleared = d.withTree (staged.tree.delete (l.entryPlace ".bak" D)) := by
      show attempt staged (staged.removeFile l.backup) = _
      rw [backup_eq, removed]
      rfl
    rw [at_backup] at real
    exact ⟨real, eq, vacated_delete root loose (bare_of_real real) same⟩
  · have eq : cleared = staged := by
      show attempt staged (staged.removeFile l.backup) = _
      rw [backup_eq, refused]
      rfl
    rw [at_backup] at state
    by_cases loose : l.entryPlace ".bak" D ∈ d.pinned
    · exact Or.inr ⟨Or.inr loose, eq⟩
    rcases state with free | taken | pinned
    · left
      have real : d.tree.find? (l.entryPlace ".bak" D) ≠ some .directory := by simp [free]
      have idle : staged.tree.delete (l.entryPlace ".bak" D) = staged.tree :=
        Tree.delete_of_free root (at_backup.trans free)
      exact ⟨real, eq.trans (congrArg d.withTree idle).symm,
        vacated_delete root loose (bare_of_real real) same⟩
    · exact Or.inr ⟨Or.inl taken, eq⟩
    · exact absurd pinned loose

include order coherent unused not_zip not_bak loose_zip opens passes reach housed in
/-- What stands in the archive's place is moved to the backup's, or nothing changes. -/
theorem move_aside :
    let staged := d.put (D ++ [n]) (.file (.archive es))
    let cleared := attempt staged (staged.removeFile l.backup)
    (∃ fault, cleared.rename l.archive l.backup = .error fault ∧ cleared = staged) ∨
      ∃ t : Tree, cleared.rename l.archive l.backup =
          .ok (d.withTree (t.move (l.entryPlace ".zip" D) (l.entryPlace ".bak" D))) ∧
        Vacated d staged.tree (l.entryPlace ".bak" D) t := by
  intro staged cleared
  rcases cleared_cases order coherent unused not_bak opens reach (.file (.archive es)) with
    ⟨real, eq, vacated⟩ | ⟨stays, eq⟩
  · have renamed :=
      rename_vacated coherent unused not_zip loose_zip passes reach housed real vacated
    exact Or.inr ⟨_, (congrArg (fun d : Disk => d.rename l.archive l.backup) eq).trans renamed,
      vacated⟩
  · have staged_opens : staged.Opens l.modDir left D := opens_put unused opens _
    have at_archive : staged.tree.find? (l.entryPlace ".zip" D) = some .directory :=
      ((find?_staged unused D _).2.2.2 _ not_zip.not_below).trans housed
    have cleared_eq : cleared = staged := eq
    have other := (unrelated_zip_bak l D).ne
    rw [cleared_eq, archive_eq, backup_eq,
      rename_entry coherent staged_opens isEnding_zip reach (by simp [at_archive])]
    by_cases pinned : l.entryPlace ".bak" D ∈ d.pinned
    · rw [renamePlace_pinned coherent staged_opens isEnding_bak (reachable_backup coherent reach)
        other (.inr pinned)]
      exact Or.inl ⟨_, rfl, rfl⟩
    · obtain ⟨same, _⟩ := backup_staged order not_bak (.file (.archive es))
      have at_backup := same []
      rw [List.append_nil, stays.resolve_right pinned] at at_backup
      rw [renamePlace_taken coherent staged_opens isEnding_bak (reachable_backup coherent reach)
          (by simp [staged, at_backup]) other loose_zip pinned,
        canReplace_directory at_archive at_backup]
      by_cases busy : staged.tree.hasBelow (l.entryPlace ".bak" D) = true
      · rw [if_pos busy]
        exact Or.inl ⟨_, rfl, rfl⟩
      · rw [if_neg busy]
        have bare := Tree.find?_append_of_not_hasBelow (entryPlace_ne_nil l ".bak" D)
          (Bool.eq_false_iff.2 busy)
        exact Or.inr ⟨_, rfl, vacated_delete (entryPlace_ne_nil l ".bak" D) pinned bare same⟩

include order coherent unused not_bak opens reach in
/-- If anything could be moved, the mod's path does not need a file or a link in the backup's
place. -/
theorem passes_of_rename
    (renamed : (attempt (d.put (D ++ [n]) node)
      ((d.put (D ++ [n]) node).removeFile l.backup)).rename l.archive l.backup = .ok d') :
    (d.withoutFile (l.entryPlace ".bak" D)).Opens l.modDir left D := by
  unfold Disk.withoutFile
  rcases cleared_cases order coherent unused not_bak opens reach node with
    ⟨real, eq, vacated⟩ | ⟨stays, _⟩
  · rw [if_neg (not_or.2 ⟨real, vacated.loose⟩)]
    rw [eq, archive_eq] at renamed
    obtain ⟨_, _, led⟩ := leads_of_rename coherent isEnding_zip renamed
    refine opens.avoid led rfl vacated.free (fun place outside there => ?_)
      (Tree.not_below_entry D _)
    exact (vacated.kept place outside).trans (find?_staged_of_there unused D _ there)
  · rw [if_pos stays]
    exact opens

/-- A tree in which what stood at the archive's place stands at the backup's, and which is otherwise
as it was. -/
structure Aside (d : Disk) (staged : Tree) (archive backup : Place) (t : Tree) : Prop where
  loose : backup ∉ d.pinned
  free : ∀ rest, t.find? (archive ++ rest) = none
  aside : ∀ rest, t.find? (backup ++ rest) = d.tree.find? (archive ++ rest)
  kept : ∀ place, ¬ archive <+: place → ¬ backup <+: place → t.find? place = staged.find? place
  room : ∀ rest, rest ≠ [] → d.tree.find? (backup ++ rest) = none

include unused not_zip in
theorem aside_of_vacated {t : Tree}
    (vacated : Vacated d (d.put (D ++ [n]) node).tree (l.entryPlace ".bak" D) t) :
    Aside d (d.put (D ++ [n]) node).tree (l.entryPlace ".zip" D) (l.entryPlace ".bak" D)
      (t.move (l.entryPlace ".zip" D) (l.entryPlace ".bak" D)) := by
  have apart := unrelated_zip_bak l D
  obtain ⟨arrived, gone, still⟩ := Tree.find?_move (entryPlace_ne_nil l _ D)
    (entryPlace_ne_nil l _ D) apart vacated.free
  refine ⟨vacated.loose, gone, fun rest => ?_, fun place under_zip under_bak => ?_, vacated.room⟩
  · calc (t.move (l.entryPlace ".zip" D) (l.entryPlace ".bak" D)).find?
          (l.entryPlace ".bak" D ++ rest)
        = t.find? (l.entryPlace ".zip" D ++ rest) := arrived rest
      _ = (d.put (D ++ [n]) node).tree.find? (l.entryPlace ".zip" D ++ rest) :=
        vacated.kept _ (apart.symm.not_prefix_append rest)
      _ = d.tree.find? (l.entryPlace ".zip" D ++ rest) :=
        (find?_staged unused D node).2.2.2 _ (not_zip.not_prefix_append rest)
  · exact (still place under_zip under_bak).trans (vacated.kept place under_bak)

include unused not_zip not_bak in
/-- The file is moved to the archive's place, from which the directory was moved away. -/
theorem setAside_of_move {t : Tree}
    (moved : Aside d (d.put (D ++ [n]) (.file (.archive es))).tree (l.entryPlace ".zip" D)
      (l.entryPlace ".bak" D) t) :
    SetAside d (d.withTree (t.move (D ++ [n]) (l.entryPlace ".zip" D))) (l.entryPlace ".zip" D)
      (l.entryPlace ".bak" D) es := by
  have apart := unrelated_zip_bak l D
  obtain ⟨absent, here, alone, others⟩ := find?_staged unused D (.file (.archive es))
  obtain ⟨arrived, gone, still⟩ := Tree.find?_move (by simp) (entryPlace_ne_nil l _ D) not_zip
    moved.free
  have temporary : ∀ rest, t.find? (D ++ [n] ++ rest) =
      (d.put (D ++ [n]) (.file (.archive es))).tree.find? (D ++ [n] ++ rest) := fun rest =>
    moved.kept _ (not_zip.symm.not_prefix_append rest) (not_bak.symm.not_prefix_append rest)
  refine ⟨rfl, ?_, fun rest filled => ?_, fun rest => ?_, moved.room,
    fun place under_zip under_bak => ?_⟩
  · have found := (arrived []).trans (temporary [])
    rw [List.append_nil, List.append_nil, here] at found
    exact found
  · exact (arrived rest).trans ((temporary rest).trans (alone rest filled))
  · exact (still _ (not_bak.not_prefix_append rest) (apart.not_prefix_append rest)).trans
      (moved.aside rest)
  · by_cases from_source : D ++ [n] <+: place
    · obtain ⟨rest, rfl⟩ := from_source
      exact (gone rest).trans (absent rest).symm
    · calc (t.move (D ++ [n]) (l.entryPlace ".zip" D)).find? place
          = t.find? place := still place from_source under_zip
        _ = (d.put (D ++ [n]) (.file (.archive es))).tree.find? place :=
          moved.kept place under_zip under_bak
        _ = d.tree.find? place := others place from_source

include coherent unused not_zip not_bak loose loose_zip clear reach housed in
/-- Once the directory was moved aside the file takes the archive's place, and the directory
stays. -/
theorem settle_aside {t : Tree}
    (moved : Aside d (d.put (D ++ [n]) (.file (.archive es))).tree (l.entryPlace ".zip" D)
      (l.entryPlace ".bak" D) t) :
    let final := d.withTree (t.move (D ++ [n]) (l.entryPlace ".zip" D))
    settle (d.withTree t) ⟨l.modDir, n⟩ l.archive = .ok final ∧
      attempt final (final.removeFile l.backup) = final := by
  intro final
  have at_backup := moved.aside []
  rw [List.append_nil, List.append_nil] at at_backup
  have opens := opens_aside unused clear housed moved.loose moved.room at_backup moved.kept
  have temporary : (d.withTree t).tree.find? (D ++ [n]) = some (.file (.archive es)) :=
    (moved.kept _ not_zip.not_above not_bak.not_above).trans (find?_staged unused D _).2.1
  have free := moved.free []
  rw [List.append_nil] at free
  constructor
  · rw [settle_of_opens (n := n) opens (by simp [temporary]), archive_eq,
      renamePlace_free coherent opens isEnding_zip reach free loose loose_zip]
    rfl
  · have set := setAside_of_move unused not_zip not_bak moved
    have there := set.aside []
    rw [List.append_nil, List.append_nil] at there
    have final_opens : final.Opens l.modDir left D :=
      opens_of_kept (entryPlace_ne_nil l _ D) (entryPlace_ne_nil l _ D) clear rfl moved.loose
        moved.room
        (fun _ => there.trans housed) fun place under_zip under_bak _ =>
          set.others place under_zip under_bak
    rw [housed] at there
    rcases removeFile_entry coherent final_opens isEnding_bak (reachable_backup coherent reach)
      with ⟨_, _, real, _⟩ | ⟨⟨fault, refused⟩, _⟩
    · exact absurd there real
    · rw [backup_eq, refused]
      rfl

include unused passes housed in
/-- If the temporary file was found after the move, the mod's path does not need the directory in
the archive's place. -/
private theorem clear_of_settle {t : Tree} {destination : Path}
    (moved : Aside d (d.put (D ++ [n]) node).tree (l.entryPlace ".zip" D) (l.entryPlace ".bak" D) t)
    (settled : settle (d.withTree t) ⟨l.modDir, n⟩ destination = .ok d') :
    ((d.withoutFile (l.entryPlace ".bak" D)).withoutAll (l.entryPlace ".zip" D)).Opens
      l.modDir left D := by
  obtain ⟨_, _, opened⟩ := opens_of_settle settled
  have cwd := (Disk.cwd_withoutFile d (l.entryPlace ".bak" D)).symm
  refine passes.avoid opened.led cwd moved.free (fun place outside there => ?_)
    (Tree.not_below_entry D _)
  obtain ⟨node, found⟩ := Option.ne_none_iff_exists'.1 there
  rw [found]
  obtain ⟨found, under⟩ := Disk.find?_of_withoutFile (entryPlace_ne_nil l _ D) found
  by_cases inside : l.entryPlace ".bak" D <+: place
  · have directory := (under inside).resolve_right moved.loose
    obtain ⟨rest, rfl⟩ := inside
    by_cases last : rest = []
    · have at_backup := moved.aside []
      rw [List.append_nil, List.append_nil, housed, ← directory] at at_backup
      rw [last, List.append_nil] at found ⊢
      exact at_backup.trans found
    · rw [moved.room rest last] at found
      cases found
  · exact (moved.kept place outside inside).trans
      ((find?_staged_of_there unused D _ (by simp [found])).trans found)

include coherent unused not_zip loose loose_zip opens reach housed in
/-- A directory in the archive's place makes way for the file. -/
theorem persist_eq_replace :
    persist (d.put (D ++ [n]) (.file (.archive es))) l ⟨l.modDir, n⟩ =
      replace (d.put (D ++ [n]) (.file (.archive es))) l ⟨l.modDir, n⟩ := by
  have staged_opens := opens_put unused opens (.file (.archive es))
  obtain ⟨_, here, _, others⟩ := find?_staged unused D (.file (.archive es))
  have at_archive := (others _ not_zip.not_below).trans housed
  have refused : settle (d.put (D ++ [n]) (.file (.archive es))) ⟨l.modDir, n⟩ l.archive =
      .error (.system .isADirectory) := by
    rw [settle_of_opens (n := n) staged_opens (by simp [here]), archive_eq,
      renamePlace_taken coherent staged_opens isEnding_zip reach (by simp [at_archive]) not_zip.ne
        loose loose_zip,
      canReplace_file (by simp [here]), if_pos at_archive]
  unfold persist
  rw [refused]
  exact if_pos (exists_archive coherent staged_opens reach at_archive)

include order coherent unused not_zip not_bak loose loose_zip opens reach housed in
/-- If the archive is written, the directory in its place was set aside. -/
theorem setAside_of_replace
    (done : replace (d.put (D ++ [n]) (.file (.archive es))) l ⟨l.modDir, n⟩ = (.ok (), d')) :
    SetAside d d' (l.entryPlace ".zip" D) (l.entryPlace ".bak" D) es := by
  unfold replace at done
  dsimp only at done
  split at done
  · cases done
  rename_i _ set_aside renamed
  have passes := passes_of_rename order coherent unused not_bak opens reach renamed
  rcases move_aside order coherent unused not_zip not_bak loose_zip opens passes reach housed with
    ⟨fault, fails, _⟩ | ⟨t, eq, vacated⟩
  · rw [fails] at renamed
    cases renamed
  · rw [eq] at renamed
    obtain rfl := Except.ok.inj renamed
    have moved := aside_of_vacated unused not_zip vacated
    split at done
    · cases done
    rename_i _ _ settled
    have clear := clear_of_settle unused passes housed moved settled
    obtain ⟨final, stays⟩ :=
      settle_aside coherent unused not_zip not_bak loose loose_zip clear reach housed moved
    rw [final] at settled
    obtain rfl := Except.ok.inj settled
    rw [stays] at done
    obtain rfl := (Prod.mk.inj done).2
    exact setAside_of_move unused not_zip not_bak moved

end

/-! ### An archive that must stay where it is -/

section

variable (order : d.tree.InOrder) (coherent : l.Coherent) (unused : d.tree.Unused n)
  (not_zip : Tree.Unrelated (D ++ [n]) (l.entryPlace ".zip" D))
  (not_bak : Tree.Unrelated (D ++ [n]) (l.entryPlace ".bak" D))
  (opens : d.Opens l.modDir left D)
  (passes : (d.withoutFile (l.entryPlace ".bak" D)).Opens l.modDir left D)
  (reach : l.Reachable ".zip") (pinned : l.entryPlace ".zip" D ∈ d.pinned)

include coherent unused not_zip opens reach pinned in
/-- The file does not take its place, and is gone again if nothing is found there. -/
theorem persist_pinned :
    let staged := d.put (D ++ [n]) (.file (.archive es))
    persist staged l ⟨l.modDir, n⟩ =
      if staged.exists? l.archive then replace staged l ⟨l.modDir, n⟩
      else (.error (.system .notPermitted), d) := by
  intro staged
  have staged_opens : staged.Opens l.modDir left D := opens_put unused opens _
  have here := (find?_staged unused D (.file (.archive es))).2.1
  have refused : settle staged ⟨l.modDir, n⟩ l.archive = .error (.system .notPermitted) := by
    rw [settle_of_opens (n := n) staged_opens (by simp [staged, here]), archive_eq,
      renamePlace_pinned coherent staged_opens isEnding_zip reach not_zip.ne (.inr pinned)]
  unfold persist
  rw [refused]
  dsimp only
  rw [discard_put unused opens]

include coherent unused not_zip opens reach in
theorem there_of_exists (found : (d.put (D ++ [n]) node).exists? l.archive = true) :
    d.tree.find? (l.entryPlace ".zip" D) ≠ none := by
  intro free
  rw [not_exists_archive coherent (opens_put unused opens _) reach
    (((find?_staged unused D _).2.2.2 _ not_zip.not_below).trans free)] at found
  cases found

variable (node) in
include order coherent unused not_zip not_bak opens passes reach pinned in
/-- It is not moved aside either; then a file or a link in the backup's place is gone. -/
theorem rename_pinned (there : d.tree.find? (l.entryPlace ".zip" D) ≠ none) :
    let staged := d.put (D ++ [n]) node
    let cleared := attempt staged (staged.removeFile l.backup)
    cleared.rename l.archive l.backup = .error (.system .notPermitted) ∧
      discard cleared ⟨l.modDir, n⟩ = d.withoutFile (l.entryPlace ".bak" D) := by
  intro staged cleared
  have other := (unrelated_zip_bak l D).ne
  have at_archive : staged.tree.find? (l.entryPlace ".zip" D) ≠ none := by
    rwa [(find?_staged unused D node).2.2.2 _ not_zip.not_below]
  have refused : ∀ now : Disk, now.Opens l.modDir left D → now.pinned = d.pinned →
      now.tree.find? (l.entryPlace ".zip" D) ≠ none →
      now.rename l.archive l.backup = .error (.system .notPermitted) := by
    intro now now_opens same taken
    rw [archive_eq, backup_eq, rename_entry coherent now_opens isEnding_zip reach taken,
      renamePlace_pinned coherent now_opens isEnding_bak (reachable_backup coherent reach) other
        (.inl (same ▸ pinned))]
  rcases cleared_cases order coherent unused not_bak opens reach node with
    ⟨real, eq, vacated⟩ | ⟨stays, eq⟩
  · have cleared_eq : cleared = d.withTree (staged.tree.delete (l.entryPlace ".bak" D)) := eq
    have now_opens := opens_vacated unused passes real vacated
    have taken : (staged.tree.delete (l.entryPlace ".bak" D)).find? (l.entryPlace ".zip" D) ≠
        none := by
      rwa [vacated.kept _ (unrelated_zip_bak l D).not_above]
    have left_over : (staged.tree.delete (l.entryPlace ".bak" D)).delete (D ++ [n]) =
        d.tree.deleteAll (l.entryPlace ".bak" D) := by
      rw [Tree.delete_comm, order.deleteAll_eq_delete real]
      exact congrArg (Tree.delete · _) (Tree.delete_put (by simp) (unused.new D) node)
    refine ⟨cleared_eq ▸ refused _ now_opens rfl taken, ?_⟩
    rw [cleared_eq, discard, place_of_opens now_opens, Disk.withoutFile,
      if_neg (not_or.2 ⟨real, vacated.loose⟩)]
    exact congrArg d.withTree left_over
  · have cleared_eq : cleared = staged := eq
    refine ⟨cleared_eq ▸ refused _ (opens_put unused opens _) rfl at_archive, ?_⟩
    rw [cleared_eq, discard_put unused opens, Disk.withoutFile, if_pos stays]

variable (es) in
include order coherent unused not_zip not_bak opens reach pinned in
theorem persist_pinned_fails :
    ∃ fault after, persist (d.put (D ++ [n]) (.file (.archive es))) l ⟨l.modDir, n⟩ =
      (.error fault, after) := by
  rw [persist_pinned coherent unused not_zip opens reach pinned]
  split
  swap
  · exact ⟨_, _, rfl⟩
  rename_i found
  have there := there_of_exists coherent unused not_zip opens reach found
  unfold replace
  dsimp only
  split
  · exact ⟨_, _, rfl⟩
  · rename_i renamed
    have passes := passes_of_rename order coherent unused not_bak opens reach renamed
    rw [(rename_pinned _ order coherent unused not_zip not_bak opens passes reach pinned there).1]
      at renamed
    cases renamed

end

end Package

end ModBench
