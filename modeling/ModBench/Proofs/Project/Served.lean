import ModBench.Proofs.Project.Errands

/-!
Runs of errands.  After any sequence of deployments and of copies taken back, with scripts written
again in between, the folder holds under each name what the last call about that name left there.
-/

set_option autoImplicit false
set_option relaxedAutoImplicit false

namespace ModBench

open Files (Disk Name Place Node Content Usable stepsOf)
open Files.Disk (Fits Reaches isSpellable)

/-- The disk after errands, one after the other. -/
def after (scripts : Path) (d : Disk) (errands : List Errand) : Disk :=
  errands.foldl (Errand.run scripts) d

/-- Errands each of which is about a script when its turn comes and about a name that has room, and
writes over no file then that may be read only. -/
def Orderly (made : Disk) (scripts : Path) (folder : Place) : Disk → List Errand → Prop
  | _, [] => True
  | d, e :: rest =>
    (∃ place content, Outside d folder e.source place content) ∧
      (∀ name, e.Decides name → Roomy made scripts folder name) ∧ e.Allowed d folder ∧
      Orderly made scripts folder (e.run scripts d) rest

/-- What holds after errands: each did what it should, and what stands in the folder under a name is
what the last errand about this name left there. -/
structure Served (made : Disk) (scripts : Path) (folder : Place) (d : Disk)
    (errands : List Errand) : Prop where
  done : ∀ before e rest, errands = before ++ e :: rest →
    Done scripts folder (after scripts d before) e
  deployed : ∀ before source rest name content, errands = before ++ .deploy source :: rest →
    source.fileName? = some name → (∀ e ∈ rest, ¬ e.Decides name) →
    (after scripts d before).read source = .ok content →
    (after scripts d errands).read (scripts.entry name) = .ok content
  undeployed : ∀ before source rest name, errands = before ++ .undeploy source :: rest →
    source.fileName? = some name → (∀ e ∈ rest, ¬ e.Decides name) →
    (after scripts d errands).exists? (scripts.entry name) = false
  untouched : ∀ name, Usable name → Roomy made scripts folder name →
    (∀ e ∈ errands, ¬ e.Decides name) →
    (after scripts d errands).status? (scripts.entry name) = d.status? (scripts.entry name)
  outside : ∀ source place content, Outside d folder source place content →
    ∃ content', Outside (after scripts d errands) folder source place content'

/-! ### Runs -/

variable {made d : Disk} {scripts source : Path} {folder place : Place} {name : Name}
  {content : Content} {errands before rest : List Errand} {e : Errand}

private theorem after_append (scripts : Path) (d : Disk) (before rest : List Errand) :
    after scripts d (before ++ rest) = after scripts (after scripts d before) rest :=
  List.foldl_append

private theorem orderly_append : Orderly made scripts folder d (before ++ rest) ↔
    Orderly made scripts folder d before ∧
      Orderly made scripts folder (after scripts d before) rest := by
  induction before generalizing d with
  | nil => simp [Orderly, after]
  | cons e before ih =>
    rw [List.cons_append, Orderly, Orderly, ih, and_assoc, and_assoc, and_assoc]
    rfl

namespace Stable

variable (stable : Stable made scripts folder d)
include stable

private theorem after (orderly : Orderly made scripts folder d errands) :
    Stable made scripts folder (ModBench.after scripts d errands) := by
  induction errands generalizing d with
  | nil => exact stable
  | cons e rest ih =>
    obtain ⟨⟨_, _, outside⟩, roomy, allowed, orderly⟩ := orderly
    exact ih (stable.step outside roomy allowed).stable orderly

/-- Errands that do not decide a name leave alone what has it. -/
theorem untouched (orderly : Orderly made scripts folder d errands) (usable : Usable name)
    (roomy : Roomy made scripts folder name) (undecided : ∀ e ∈ errands, ¬ e.Decides name) :
    (ModBench.after scripts d errands).status? (scripts.entry name) =
      d.status? (scripts.entry name) := by
  induction errands generalizing d with
  | nil => rfl
  | cons e rest ih =>
    obtain ⟨⟨_, _, outside⟩, roomy_all, allowed, orderly⟩ := orderly
    have stepped := stable.step outside roomy_all allowed
    have later := ih stepped.stable orderly fun e mem => undecided e (List.mem_cons_of_mem _ mem)
    rw [stepped.stable.status?_copy usable roomy,
      stepped.same name (undecided e List.mem_cons_self), ← stable.status?_copy usable roomy]
      at later
    exact later

private theorem outside_after (orderly : Orderly made scripts folder d errands)
    (outside : Outside d folder source place content) :
    ∃ content', Outside (ModBench.after scripts d errands) folder source place content' := by
  induction errands generalizing d content with
  | nil => exact ⟨content, outside⟩
  | cons e rest ih =>
    obtain ⟨⟨_, _, now⟩, roomy, allowed, orderly⟩ := orderly
    have stepped := stable.step now roomy allowed
    obtain ⟨_, later⟩ := stepped.outside source place content outside
    exact ih stepped.stable orderly later

/-- Each errand of a run is done on a disk that is as it should be. -/
theorem step_of_run (orderly : Orderly made scripts folder d (before ++ e :: rest)) :
    Stable made scripts folder (ModBench.after scripts d before) ∧
      (∃ place content, Outside (ModBench.after scripts d before) folder e.source place content) ∧
      (∀ name, e.Decides name → Roomy made scripts folder name) ∧
      Stepped made scripts folder (ModBench.after scripts d before) e ∧
      Orderly made scripts folder (e.run scripts (ModBench.after scripts d before)) rest := by
  obtain ⟨first, ⟨place, content, outside⟩, roomy, allowed, later⟩ := orderly_append.1 orderly
  have here := stable.after first
  exact ⟨here, ⟨place, content, outside⟩, roomy, here.step outside roomy allowed, later⟩

/-- After an errand that decides a name, errands that do not leave what it left. -/
private theorem last_decides (orderly : Orderly made scripts folder d (before ++ e :: rest))
    (decides : e.Decides name) (undecided : ∀ e ∈ rest, ¬ e.Decides name) :
    (ModBench.after scripts d (before ++ e :: rest)).status? (scripts.entry name) =
      (e.run scripts (ModBench.after scripts d before)).status? (scripts.entry name) := by
  obtain ⟨here, ⟨_, _, outside⟩, roomy, stepped, later⟩ := stable.step_of_run orderly
  have usable : Usable name := by
    obtain ⟨other, named, usable⟩ := Files.Disk.named_of_file here.linkless here.housing
      outside.spellable outside.located outside.found
    exact Option.some.inj (named.symm.trans decides.named) ▸ usable
  rw [after_append]
  exact stepped.stable.untouched later usable (roomy name decides) undecided

private theorem served (orderly : Orderly made scripts folder d errands) :
    Served made scripts folder d errands where
  done before e rest split := by
    subst split
    exact (stable.step_of_run orderly).2.2.2.1.done
  deployed before source rest name content split named undecided read := by
    subst split
    obtain ⟨_, _, _, stepped, _⟩ := stable.step_of_run orderly
    rw [Files.Disk.read_eq_ok_iff_status?, stable.last_decides orderly named undecided]
    cases stepped.done with
    | deployed named' read' ended copied =>
      rw [named] at named'
      obtain rfl := Option.some.inj named'
      rw [read] at read'
      obtain rfl := Except.ok.inj read'
      rw [Errand.run, ended]
      exact Files.Disk.read_eq_ok_iff_status?.1 copied
  undeployed before source rest name split named undecided := by
    subst split
    obtain ⟨_, _, _, stepped, _⟩ := stable.step_of_run orderly
    rw [Disk.exists?, stable.last_decides orderly named undecided]
    cases stepped.done with
    | removed named' _ ended gone =>
      rw [named] at named'
      obtain rfl := Option.some.inj named'
      rw [Errand.run, ended]
      exact gone
    | notDeployed named' absent ended =>
      rw [named] at named'
      obtain rfl := Option.some.inj named'
      rw [Errand.run, ended]
      exact absent
  untouched name usable roomy undecided := stable.untouched orderly usable roomy undecided
  outside source place content outside := stable.outside_after orderly outside

/-- Where all are about scripts at first and no file is read-only, they are so when their turn
comes, and no file has become so. -/
private theorem orderly_of_outside (writable : ∀ place, d.tree.isReadOnly place = false)
    (outside : ∀ e ∈ errands, ∃ place content, Outside d folder e.source place content)
    (roomy : ∀ e ∈ errands, ∀ name, e.Decides name → Roomy made scripts folder name) :
    Orderly made scripts folder d errands := by
  induction errands generalizing d with
  | nil => trivial
  | cons e rest ih =>
    obtain ⟨place, content, now⟩ := outside e List.mem_cons_self
    have allowed : e.Allowed d folder := by
      cases e with
      | deploy => exact fun _ _ => writable _
      | undeploy => trivial
      | rewrite => exact fun _ _ => writable _
    have stepped := stable.step now (roomy e List.mem_cons_self) allowed
    refine ⟨⟨place, content, now⟩, roomy e List.mem_cons_self, allowed,
      ih stepped.stable (stepped.writable writable) ?_ ?_⟩
    · intro e mem
      obtain ⟨place, content, first⟩ := outside e (List.mem_cons_of_mem _ mem)
      exact ⟨place, stepped.outside _ _ _ first⟩
    · exact fun e mem => roomy e (List.mem_cons_of_mem _ mem)

end Stable

theorem makeDirectories_eq_withFolder (makes : (d.makeDirectories scripts).1 = .ok ()) :
    d.makeDirectories scripts = (.ok (), withFolder scripts d) :=
  Prod.ext makes rfl

theorem stable_of_makes (order : d.tree.InOrder) (linkless : d.tree.Linkless)
    (cwd : d.tree.find? d.cwd = some .directory) (makes : (d.makeDirectories scripts).1 = .ok ())
    (reaches : (withFolder scripts d).Reaches scripts folder)
    (placed : d.Reaches scripts folder ∨ d.tree.find? folder = none) :
    Stable (withFolder scripts d) scripts folder d where
  housing := order.housing
  linkless := linkless
  cwd := cwd
  pinned := (Stable.grown scripts d).pinned.symm
  makes := makeDirectories_eq_withFolder makes
  reaches := reaches
  placed := placed
  directories _ housed := housed

/-- On a disk without links on which the folder for scripts is there or can be made where nothing
stands yet, the folder holds under each name what was deployed last, or nothing if it was taken back
since then, and no call fails or changes anything else, as long as none writes over a file that may
be read only. -/
theorem folder_holds_what_was_deployed_last (d : Disk) (order : d.tree.InOrder)
    (linkless : d.tree.Linkless) (cwd : d.tree.find? d.cwd = some .directory) (scripts : Path)
    (makes : (d.makeDirectories scripts).1 = .ok ()) :
    ∃ folder, (withFolder scripts d).Reaches scripts folder ∧
      (d.Reaches scripts folder ∨ d.tree.find? folder = none →
        ∀ errands, Orderly (withFolder scripts d) scripts folder d errands →
          Served (withFolder scripts d) scripts folder d errands) := by
  obtain ⟨folder, reaches⟩ :=
    Files.Disk.reaches_of_makeDirectories cwd (makeDirectories_eq_withFolder makes)
  exact ⟨folder, reaches, fun placed errands orderly =>
    (stable_of_makes order linkless cwd makes reaches placed).served orderly⟩

/-- Two mods that have scripts of one name, and no folder for scripts yet. -/
def twoMods : Disk :=
  { tree := [(stepsOf (.ofString "m"), .directory),
      (stepsOf (.ofString "m/a.reds"), .file (.ofString "func A() \x7b\x7d")),
      (stepsOf (.ofString "m/b.reds"), .file (.ofString "func B() \x7b\x7d")),
      (stepsOf (.ofString "n"), .directory),
      (stepsOf (.ofString "n/a.reds"), .file (.ofString "func N() \x7b\x7d"))] }

/-- The copy of the script deployed last stays as it was though the script is written again, and the
copy that is taken back is gone. -/
theorem copy_outlives_rewrite :
    let scripts := Path.ofString "r6/scripts"
    let errands := [.undeploy (.ofString "m/b.reds"), .deploy (.ofString "m/b.reds"),
      .deploy (.ofString "n/a.reds"), .deploy (.ofString "m/a.reds"),
      .rewrite (.ofString "m/a.reds") (Text.encodeString "func C() \x7b\x7d"),
      .undeploy (.ofString "m/b.reds")]
    (twoMods.tree.InOrder ∧ twoMods.tree.Linkless ∧
      twoMods.tree.find? twoMods.cwd = some .directory ∧
      (twoMods.makeDirectories scripts).1 = .ok ()) ∧
      (after scripts twoMods errands).read (.ofString "r6/scripts/a.reds") =
        .ok (.ofString "func A() \x7b\x7d") ∧
      (after scripts twoMods errands).exists? (.ofString "r6/scripts/b.reds") = false := by
  intro scripts errands
  have order : twoMods.tree.InOrder := by decide +kernel
  have linkless : twoMods.tree.Linkless :=
    Files.Tree.linkless_of_mem (by simp [twoMods])
  have cwd : twoMods.tree.find? twoMods.cwd = some .directory := rfl
  have makes : (twoMods.makeDirectories scripts).1 = .ok () := by decide +kernel
  obtain ⟨folder, reaches, served⟩ :=
    folder_holds_what_was_deployed_last twoMods order linkless cwd scripts makes
  obtain rfl : folder = stepsOf scripts := by
    obtain ⟨left, led⟩ := reaches.led
    have walked : (withFolder scripts twoMods).tree.walk true Files.maxLinks
        ((withFolder scripts twoMods).start scripts) (stepsOf scripts) =
          .ok (.node (stepsOf scripts)) := by decide +kernel
    exact Files.Landing.node.inj (Except.ok.inj (led.walk_true.symm.trans walked))
  have free : twoMods.tree.find? (stepsOf scripts) = none := by decide +kernel
  have stable := stable_of_makes order linkless cwd makes reaches (.inr free)
  have sources : ∀ e ∈ errands, isSpellable e.source = true ∧
      twoMods.locate e.source = .ok (stepsOf e.source) ∧
      (stepsOf e.source).dropLast ≠ stepsOf scripts ∧
      (∃ content ∈ [.ofString "func A() \x7b\x7d", .ofString "func B() \x7b\x7d",
        .ofString "func N() \x7b\x7d"],
        twoMods.tree.find? (stepsOf e.source) = some (.file content)) ∧
      e.source.fileName? ∈ ["a.reds", "b.reds"].map (some ∘ Text.encodeString) := by
    decide +kernel
  have room : ∀ file ∈ ["a.reds", "b.reds"].map (some ∘ Text.encodeString), ∀ name ∈ file,
      (scripts.entry name).bytes ≠ [] ∧
      (scripts.entry name).bytes.length < Files.maxPathLength ∧
      (withFolder scripts twoMods).tree.find? (stepsOf scripts ++ [name]) ≠ some .directory ∧
      stepsOf scripts ++ [name] ∉ (withFolder scripts twoMods).pinned := by
    decide +kernel
  have writable : ∀ place, twoMods.tree.isReadOnly place = false :=
    Files.Tree.isReadOnly_of_mem (by decide +kernel)
  have orderly :
      Orderly (withFolder scripts twoMods) scripts (stepsOf scripts) twoMods errands := by
    refine stable.orderly_of_outside writable (fun e mem => ?_) fun e mem name decides => ?_
    · obtain ⟨spellable, located, apart, ⟨content, _, found⟩, _⟩ := sources e mem
      exact ⟨_, content, spellable, located, found, apart⟩
    · obtain ⟨_, _, _, _, file⟩ := sources e mem
      obtain ⟨filled, short, free, loose⟩ := room _ file name decides.named
      exact ⟨⟨filled, short⟩, free, loose⟩
  have left := served (.inr free) errands orderly
  refine ⟨⟨order, linkless, cwd, makes⟩, ?_, ?_⟩
  · refine left.deployed (errands.take 3) (.ofString "m/a.reds") (errands.drop 4)
      (Text.encodeString "a.reds") _ rfl (by decide +kernel) (by decide +kernel) ?_
    decide +kernel
  · exact left.undeployed (errands.take 5) (.ofString "m/b.reds") [] (Text.encodeString "b.reds")
      rfl (by decide +kernel) nofun

/-! ### Folders that do not serve -/

/-- A script is not copied where the path of its copy is too long, and the folder is made. -/
private theorem deploy_of_long (makes : (d.makeDirectories scripts).1 = .ok ())
    (opened : (withFolder scripts d).openToRead source = .ok place)
    (found : (withFolder scripts d).tree.find? place = some (.file content))
    (named : source.fileName? = some name) (usable : Usable name)
    (long : ¬ Fits (scripts.entry name)) :
    deploy d source scripts =
      (.error (.files .copy source (.system .nameTooLong)), withFolder scripts d) := by
  have made := makeDirectories_eq_withFolder makes
  have spellable : isSpellable (scripts.entry name) = true :=
    Files.Disk.isSpellable_entry usable (Files.Disk.isSpellable_of_makeDirectories made)
  have refused : (withFolder scripts d).copy source (scripts.entry name) =
      .error (.system .nameTooLong) := by
    rw [Disk.copy, opened]
    dsimp only
    rw [found]
    dsimp only
    rw [Disk.openToWrite, if_pos spellable,
      Files.Disk.walkSteps_of_long (Files.entry_filled usable scripts) long]
  rw [deploy, deployedAt, named]
  dsimp only
  rw [made]
  dsimp only
  rw [refused]

/-- One script, and a folder. -/
def oneScript : Disk :=
  { tree := [(stepsOf (.ofString "a.reds"), .file (.ofString "func A() \x7b\x7d")),
      (stepsOf (.ofString "w"), .directory)] }

/-- Two scripts, and a folder in which one of them was deployed before. -/
def deployedBefore : Disk :=
  { tree := [(stepsOf (.ofString "m"), .directory),
      (stepsOf (.ofString "m/a.reds"), .file (.ofString "func A() \x7b\x7d")),
      (stepsOf (.ofString "m/b.reds"), .file (.ofString "func B() \x7b\x7d")),
      (stepsOf (.ofString "r6"), .directory),
      (stepsOf (.ofString "r6/a.reds"), .file (.ofString "func Old() \x7b\x7d"))] }

/-- A script that may be read only, and a folder. -/
def readOnlyScript : Disk :=
  { tree := [(stepsOf (.ofString "a.reds"),
        .file { Content.ofString "func A() \x7b\x7d" with readOnly := true }),
      (stepsOf (.ofString "w"), .directory)] }

/-- A script, and a folder in which it was deployed before by another user, whose files can be
written but not taken away. -/
def keptCopy : Disk :=
  { deployedBefore with pinned := [stepsOf (.ofString "r6/a.reds")] }

private theorem deploy_slashed {count : Nat} (fits : count + 2 < Files.maxPathLength)
    (long : Files.maxPathLength ≤ count + 8) :
    deploy oneScript (.ofString "a.reds") (Files.slashed count) =
      (.error (.files .copy (.ofString "a.reds") (.system .nameTooLong)), oneScript) := by
  have usable : ∀ n ∈ [Text.encodeString "a.reds"], Usable n := by decide +kernel
  have scripts_fits : Fits (Files.slashed count) := Files.Disk.fits_slashed fits
  have copy_long : ¬ Fits ((Files.slashed count).child "a.reds") := by
    refine mt (Files.Disk.fits_slashed_iff count [Text.encodeString "a.reds"] usable).1 ?_
    have added : (Files.under ⟨[slash]⟩ [Text.encodeString "a.reds"]).bytes.length = 7 := by
      decide +kernel
    omega
  have made := Files.Disk.makeDirectories_there
    (.inr ⟨Files.Disk.isSpellable_slashed count, scripts_fits⟩)
    (Files.Disk.opens_slashed (d := oneScript) rfl rfl scripts_fits).reaches
  have same : withFolder (Files.slashed count) oneScript = oneScript := by
    rw [withFolder, made]
  have opened : oneScript.openToRead (.ofString "a.reds") = .ok (stepsOf (.ofString "a.reds")) := by
    decide +kernel
  have found : oneScript.tree.find? (stepsOf (.ofString "a.reds")) =
      some (.file (.ofString "func A() \x7b\x7d")) := by decide +kernel
  have failed := deploy_of_long (d := oneScript) (by rw [made]) (same.symm ▸ opened)
    (same.symm ▸ found) (by decide +kernel) (usable _ List.mem_cons_self) copy_long
  rwa [same] at failed

/-- Folders that can be made and do not hold what was deployed: one whose path is so long that there
is none for a copy; one that is made by way of a directory with the script's name; one that was
there already, behind a directory that had to be made to see it; one with a copy that may be read
only, as its script; and one with a copy that cannot be taken away. -/
theorem folders_that_do_not_serve :
    (oneScript.tree.Linkless ∧ oneScript.isDirectory (Files.slashed 4090) = true ∧
      deploy oneScript (.ofString "a.reds") (Files.slashed 4090) =
        (.error (.files .copy (.ofString "a.reds") (.system .nameTooLong)), oneScript)) ∧
    ((oneScript.makeDirectories (.ofString "s/a.reds/..")).1 = .ok () ∧
      (deploy oneScript (.ofString "a.reds") (.ofString "s/a.reds/..")).1 =
        .error (.files .copy (.ofString "a.reds") (.system .isADirectory))) ∧
    (deployedBefore.tree.Linkless ∧
      (deployedBefore.makeDirectories (.ofString "new/../r6")).1 = .ok () ∧
      undeploy deployedBefore (.ofString "m/a.reds") (.ofString "new/../r6") =
        (.ok (.notDeployed (.ofString "new/../r6/a.reds")), deployedBefore) ∧
      (deploy deployedBefore (.ofString "m/b.reds") (.ofString "new/../r6")).2.exists?
        (.ofString "new/../r6/a.reds") = true) ∧
    (readOnlyScript.tree.Linkless ∧ ∃ once,
      deploy readOnlyScript (.ofString "a.reds") (.ofString "w") =
        (.ok (.ofString "w/a.reds"), once) ∧
      deploy once (.ofString "a.reds") (.ofString "w") =
        (.error (.files .copy (.ofString "a.reds") (.system .permissionDenied)), once)) ∧
    undeploy keptCopy (.ofString "m/a.reds") (.ofString "r6") =
      (.error (.files .delete (.ofString "r6/a.reds") (.system .notPermitted)), keptCopy) := by
  have fits : Fits (Files.slashed 4090) := Files.Disk.fits_slashed (by decide)
  have opens := Files.Disk.opens_slashed (d := oneScript) rfl rfl fits
  refine ⟨⟨?_, opens.isDirectory (Files.Disk.isSpellable_slashed 4090),
    deploy_slashed (by decide) (by decide)⟩, by decide +kernel, ⟨?_, by decide +kernel⟩,
    ⟨?_, _, rfl, by decide +kernel⟩, by decide +kernel⟩
  · exact Files.Tree.linkless_of_mem (by simp [oneScript])
  · exact Files.Tree.linkless_of_mem (by simp [deployedBefore])
  · exact Files.Tree.linkless_of_mem (by simp [readOnlyScript])

end ModBench
