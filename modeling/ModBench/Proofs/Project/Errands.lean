import ModBench.Project.Deploy
import ModBench.Proofs.Files.Named
import ModBench.Proofs.Files.Remade

/-!
The folder for scripts over time.  Scripts are deployed and taken back, and written again in
between; the folder holds under each name what was deployed last, and nothing else is changed.
-/

set_option autoImplicit false
set_option relaxedAutoImplicit false

namespace ModBench

open Files (Disk Name Place Node Content Usable stepsOf)
open Files.Disk (Above Altered Fits Grown Reaches isSpellable)

/-- What is done with a script: it is deployed, its copy is taken back, or it is written again. -/
inductive Errand where
  | deploy (source : Path)
  | undeploy (source : Path)
  | rewrite (source : Path) (data : List UInt8)

namespace Errand

def source : Errand → Path
  | deploy source => source
  | undeploy source => source
  | rewrite source _ => source

/-- The disk after an errand. -/
def run (scripts : Path) (d : Disk) : Errand → Disk
  | deploy source => (ModBench.deploy d source scripts).2
  | undeploy source => (ModBench.undeploy d source scripts).2
  | rewrite source data =>
    match d.write source data with
    | .ok d => d
    | .error _ => d

/-- The errand decides what stands in the folder under a name. -/
def Decides (name : Name) : Errand → Prop
  | deploy source => source.fileName? = some name
  | undeploy source => source.fileName? = some name
  | rewrite _ _ => False

instance (name : Name) : DecidablePred (Decides name)
  | deploy source => inferInstanceAs (Decidable (source.fileName? = some name))
  | undeploy source => inferInstanceAs (Decidable (source.fileName? = some name))
  | rewrite _ _ => inferInstanceAs (Decidable False)

/-- What the errand writes over, if anything, is no file that may be read only. -/
def Allowed (d : Disk) (folder : Place) : Errand → Prop
  | deploy source =>
    ∀ name, source.fileName? = some name → d.tree.isReadOnly (folder ++ [name]) = false
  | undeploy _ => True
  | rewrite source _ => ∀ place, d.locate source = .ok place → d.tree.isReadOnly place = false

theorem Decides.named {e : Errand} {name : Name} (decides : e.Decides name) :
    e.source.fileName? = some name := by
  cases e with
  | deploy source => exact decides
  | undeploy source => exact decides
  | rewrite => exact decides.elim

end Errand

/-- The disk once the folder for scripts is made. -/
def withFolder (scripts : Path) (d : Disk) : Disk :=
  (d.makeDirectories scripts).2

/-- A script: its path leads to a regular file, and that file does not stand in the folder. -/
structure Outside (d : Disk) (folder : Place) (source : Path) (place : Place) (content : Content) :
    Prop where
  spellable : isSpellable source = true
  located : d.locate source = .ok place
  found : d.tree.find? place = some (.file content)
  apart : place.dropLast ≠ folder

/-- A script is no entry of the folder. -/
theorem Outside.ne_entry {d : Disk} {folder place : Place} {source : Path} {content : Content}
    (outside : Outside d folder source place content) (name : Name) :
    place ≠ folder ++ [name] := by
  rintro rfl
  exact outside.apart List.dropLast_concat

/-- A copy of this name has room in the folder: its path is not too long, and once the folder is
made no directory has the name, nor anything that cannot be taken away. -/
structure Roomy (made : Disk) (scripts : Path) (folder : Place) (name : Name) : Prop where
  fits : Fits (scripts.entry name)
  free : made.tree.find? (folder ++ [name]) ≠ some .directory
  loose : folder ++ [name] ∉ made.pinned

/-- What an errand does: a deployment leaves a copy, and taken back leaves directories at most; a
copy is taken back if it is there; and nothing else changes. -/
inductive Done (scripts : Path) (folder : Place) (d : Disk) : Errand → Prop
  | deployed {source : Path} {name : Name} {content : Content} {d' : Disk}
    (named : source.fileName? = some name) (read : d.read source = .ok content)
    (ended : deploy d source scripts = (.ok (scripts.entry name), d'))
    (copied : d'.read (scripts.entry name) = .ok content)
    (still : d'.read source = .ok content)
    (kept : ∀ place node, place ≠ folder ++ [name] → d.tree.find? place = some node →
      d'.tree.find? place = some node)
    (made : ∀ place, place ≠ folder ++ [name] → d.tree.find? place = none →
      d'.tree.find? place = none ∨
        d'.tree.find? place = some .directory ∧ ∃ p, Above scripts p ∧ d'.locate p = .ok place)
    (restored : d.exists? (scripts.entry name) = false → ∃ d'',
      undeploy d' source scripts = (.ok (.removed (scripts.entry name)), d'') ∧
        Grown (Above scripts) d d'') :
    Done scripts folder d (.deploy source)
  | removed {source : Path} {name : Name} {d' : Disk} (named : source.fileName? = some name)
    (there : d.exists? (scripts.entry name) = true)
    (ended : undeploy d source scripts = (.ok (.removed (scripts.entry name)), d'))
    (gone : d'.exists? (scripts.entry name) = false)
    (others : ∀ place, place ≠ folder ++ [name] →
      d'.tree.find? place = d.tree.find? place) :
    Done scripts folder d (.undeploy source)
  | notDeployed {source : Path} {name : Name} (named : source.fileName? = some name)
    (absent : d.exists? (scripts.entry name) = false)
    (ended : undeploy d source scripts = (.ok (.notDeployed (scripts.entry name)), d)) :
    Done scripts folder d (.undeploy source)
  | rewritten {source : Path} {data : List UInt8} {place : Place} {d' : Disk}
    (located : d.locate source = .ok place) (ended : d.write source data = .ok d')
    (read : d'.read source = .ok (.bytes data))
    (others : ∀ other, other ≠ place → d'.tree.find? other = d.tree.find? other) :
    Done scripts folder d (.rewrite source data)

/-! ### What stays as it is -/

/-- A disk on which the folder is there, or can be made where nothing stands yet. -/
structure Stable (made : Disk) (scripts : Path) (folder : Place) (d : Disk) : Prop where
  housing : d.tree.Housed
  linkless : d.tree.Linkless
  cwd : d.tree.find? d.cwd = some .directory
  pinned : d.pinned = made.pinned
  makes : d.makeDirectories scripts = (.ok (), withFolder scripts d)
  reaches : (withFolder scripts d).Reaches scripts folder
  placed : d.Reaches scripts folder ∨ d.tree.find? folder = none
  directories : ∀ place, (withFolder scripts d).tree.find? place = some .directory →
    made.tree.find? place = some .directory

namespace Stable

variable {made d d' : Disk} {scripts source : Path} {folder place : Place} {name : Name}
  {content : Content}

theorem grown (scripts : Path) (d : Disk) : Grown (Above scripts) d (withFolder scripts d) :=
  Files.Disk.grown_makeDirectories d scripts

/-- Making the folder makes no file. -/
theorem isReadOnly_withFolder (scripts : Path) (d : Disk) (place : Place) :
    (withFolder scripts d).tree.isReadOnly place = d.tree.isReadOnly place := by
  rw [Files.Tree.isReadOnly, Files.Tree.isReadOnly]
  cases before : d.tree.find? place with
  | none => rcases (grown scripts d).made place before with none | ⟨directory, _⟩ <;> simp [*]
  | some node => rw [(grown scripts d).kept _ _ before]

section

variable (stable : Stable made scripts folder d)
include stable

theorem withFolder_linkless : (withFolder scripts d).tree.Linkless := by
  intro place target found
  cases before : d.tree.find? place with
  | none =>
    rcases (grown scripts d).made place before with none | ⟨directory, _⟩
    · rw [none] at found
      cases found
    · rw [directory] at found
      cases found
  | some node =>
    have kept := (grown scripts d).kept _ _ before
    rw [found] at kept
    exact stable.linkless place target (before.trans kept.symm)

theorem spellable : isSpellable scripts = true :=
  Files.Disk.isSpellable_of_makeDirectories stable.makes

theorem withFolder_of_reaches (reaches : d.Reaches scripts folder) :
    withFolder scripts d = d := by
  have there := Files.Disk.makeDirectories_there
    (Files.Disk.sound_of_makeDirectories stable.makes) reaches
  rw [withFolder, there]

theorem writable (roomy : Roomy made scripts folder name) :
    (withFolder scripts d).tree.Writable (folder ++ [name]) := by
  intro node found
  cases node with
  | file content => exact ⟨content, rfl⟩
  | directory => exact absurd (stable.directories _ found) roomy.free
  | link target => exact absurd found (stable.withFolder_linkless _ _)

/-- Where no way leads to the folder, nothing is in it, nor will be once it is made. -/
theorem lost (usable : Usable name) (roomy : Roomy made scripts folder name)
    (unmade : ¬ d.Reaches scripts folder) :
    (∀ follow, d.walkSteps follow (scripts.entry name) (stepsOf (scripts.entry name)) =
      .error .notFound) ∧
      (withFolder scripts d).tree.find? (folder ++ [name]) = none := by
  have nowhere := (Files.Disk.lost_before stable.housing stable.cwd (grown scripts d)
    stable.reaches).resolve_left unmade
  refine ⟨nowhere name usable roomy.fits, ?_⟩
  have none_before : d.tree.find? (folder ++ [name]) = none := by
    by_contra there
    have housed := stable.housing _ _ there
    rw [stable.placed.resolve_left unmade] at housed
    cases housed
  rcases (grown scripts d).made _ none_before with none | ⟨directory, _⟩
  · exact none
  · exact absurd (stable.directories _ directory) roomy.free

/-- What is seen at the path of a copy stands in the folder, or will once the folder is made. -/
theorem status?_copy (usable : Usable name) (roomy : Roomy made scripts folder name) :
    d.status? (scripts.entry name) =
      (withFolder scripts d).tree.find? (folder ++ [name]) := by
  by_cases reaches : d.Reaches scripts folder
  · rw [stable.withFolder_of_reaches reaches]
    exact reaches.status?_entry usable roomy.fits stable.spellable (stable.linkless _)
  · obtain ⟨nowhere, none⟩ := stable.lost usable roomy reaches
    have failed : d.locate (scripts.entry name) = .error .notFound := by
      rw [Disk.locate, Disk.walk, Files.lookupSteps, Files.endsInSlash_entry usable,
        if_neg Bool.false_ne_true, nowhere]
    rw [none, Disk.status?, failed]
    simp

/-- A file that comes to the folder, or goes from it, once it is made. -/
theorem of_altered
    (altered : Altered (withFolder scripts d) d' (folder ++ [name])) :
    Stable made scripts folder d' ∧ withFolder scripts d' = d' := by
  have reaches := altered.reaches stable.reaches
  have there := Files.Disk.makeDirectories_there
    (Files.Disk.sound_of_makeDirectories stable.makes) reaches
  have same : withFolder scripts d' = d' := by
    rw [withFolder, there]
  have pinned := altered.pinned.trans (grown scripts d).pinned
  refine ⟨⟨?_, altered.linkless stable.withFolder_linkless, ?_, pinned.trans stable.pinned, ?_, ?_,
    .inl reaches, ?_⟩, same⟩
  · refine altered.housed ((grown scripts d).housing stable.housing) ?_
    rw [List.dropLast_concat]
    exact stable.reaches.housed
  · rw [altered.cwd, (grown scripts d).cwd]
    exact altered.directory_iff.2 ((grown scripts d).kept _ _ stable.cwd)
  · rw [same, there]
  · rwa [same]
  · rw [same]
    exact fun place housed => stable.directories place (altered.directory_iff.1 housed)

private theorem deploy (outside : Outside d folder source place content)
    (named : source.fileName? = some name) (usable : Usable name)
    (roomy : Roomy made scripts folder name)
    (allowed : d.tree.isReadOnly (folder ++ [name]) = false) : ∃ d',
      ModBench.deploy d source scripts = (.ok (scripts.entry name), d') ∧
      Altered (withFolder scripts d) d' (folder ++ [name]) ∧
      d'.tree.find? (folder ++ [name]) = some (.file content) := by
  have writable := stable.writable roomy
  have elsewhere := outside.ne_entry name
  have found := (grown scripts d).kept _ _ outside.found
  have opened : (withFolder scripts d).openToRead source = .ok place :=
    Files.Disk.openToRead_eq_ok.2 ⟨outside.spellable,
      Files.Disk.locate_mono (grown scripts d).cwd (grown scripts d).kept outside.located⟩
  have target := stable.reaches.openToWrite_entry usable roomy.fits stable.spellable
    (stable.withFolder_linkless _)
  rw [if_neg fun directory => roomy.free (stable.directories _ directory),
    isReadOnly_withFolder, allowed, if_neg Bool.false_ne_true] at target
  have reread : ((withFolder scripts d).put (folder ++ [name])
      (.file Content.empty)).contentAt place = .ok content :=
    Files.Disk.contentAt_eq_ok.2 ((Files.Tree.find?_put_ne elsewhere _).trans found)
  have copied : (withFolder scripts d).copy source (scripts.entry name) =
      .ok (((withFolder scripts d).put (folder ++ [name]) (.file Content.empty)).put
        (folder ++ [name]) (.file content)) := by
    rw [Disk.copy, opened]
    dsimp only
    rw [found]
    dsimp only
    rw [target]
    dsimp only
    rw [reread]
  refine ⟨_, ?_, (Files.Disk.altered_put writable Content.empty).trans
    (Files.Disk.altered_put (writable.put _) content), Files.Tree.find?_put_self (by simp) _⟩
  rw [ModBench.deploy, deployedAt, named]
  dsimp only
  rw [stable.makes]
  dsimp only
  rw [copied]

theorem undeploy_there (named : source.fileName? = some name) (usable : Usable name)
    (roomy : Roomy made scripts folder name) (there : d.exists? (scripts.entry name) = true) :
    ∃ d', ModBench.undeploy d source scripts = (.ok (.removed (scripts.entry name)), d') ∧
      withFolder scripts d = d ∧ Altered d d' (folder ++ [name]) ∧
      d'.tree.find? (folder ++ [name]) = none := by
  rw [Disk.exists?, stable.status?_copy usable roomy] at there
  have reaches : d.Reaches scripts folder := by
    by_contra unmade
    rw [(stable.lost usable roomy unmade).2] at there
    cases there
  have same := stable.withFolder_of_reaches reaches
  have writable := stable.writable roomy
  have no_directory : d.tree.find? (folder ++ [name]) ≠ some .directory := by
    rw [← same]
    exact fun directory => roomy.free (stable.directories _ directory)
  rw [same] at there writable
  have taken := reaches.removeFile_entry usable roomy.fits stable.spellable no_directory
    (stable.pinned ▸ roomy.loose)
  rw [if_neg (Option.isSome_iff_ne_none.1 there)] at taken
  refine ⟨_, ?_, same, Files.Disk.altered_delete writable,
    Files.Tree.find?_delete_self _ writable.ne_nil⟩
  rw [ModBench.undeploy, deployedAt, named]
  dsimp only
  rw [taken]

private theorem undeploy_absent (named : source.fileName? = some name) (usable : Usable name)
    (roomy : Roomy made scripts folder name) (absent : d.exists? (scripts.entry name) = false) :
    ModBench.undeploy d source scripts = (.ok (.notDeployed (scripts.entry name)), d) := by
  have refused : d.removeFile (scripts.entry name) = .error (.system .notFound) := by
    by_cases reaches : d.Reaches scripts folder
    · rw [Disk.exists?, stable.status?_copy usable roomy, stable.withFolder_of_reaches reaches,
        Option.isSome_eq_false_iff, Option.isNone_iff_eq_none] at absent
      rw [reaches.removeFile_entry usable roomy.fits stable.spellable (by simp [absent])
        (stable.pinned ▸ roomy.loose), if_pos absent]
    · rw [Disk.removeFile, if_pos (Files.Disk.isSpellable_entry usable stable.spellable),
        (stable.lost usable roomy reaches).1]
  rw [ModBench.undeploy, deployedAt, named]
  dsimp only
  rw [refused]
  rfl

/-- A copy that was not there before is taken back, and at most directories are left of it. -/
private theorem undeploy_of_deployed (named : source.fileName? = some name) (usable : Usable name)
    (roomy : Roomy made scripts folder name)
    (altered : Altered (withFolder scripts d) d' (folder ++ [name]))
    (found : d'.tree.find? (folder ++ [name]) = some (.file content))
    (absent : d.exists? (scripts.entry name) = false) :
    ∃ d'', ModBench.undeploy d' source scripts = (.ok (.removed (scripts.entry name)), d'') ∧
      Grown (Above scripts) d d'' := by
  obtain ⟨stable', made_already⟩ := stable.of_altered altered
  have there : d'.exists? (scripts.entry name) = true := by
    rw [Disk.exists?, stable'.status?_copy usable roomy, made_already, found]
    rfl
  rw [Disk.exists?, stable.status?_copy usable roomy, Option.isSome_eq_false_iff,
    Option.isNone_iff_eq_none] at absent
  obtain ⟨d'', ended, -, altered', gone⟩ := stable'.undeploy_there named usable roomy there
  refine ⟨d'', ended, (grown scripts d).congr (altered'.cwd.trans altered.cwd)
    (altered'.pinned.trans altered.pinned) fun other => ?_⟩
  by_cases entry : other = folder ++ [name]
  · rw [entry, gone, absent]
  · exact (altered'.others other entry).trans (altered.others other entry)

private theorem rewrite (outside : Outside d folder source place content)
    (allowed : content.readOnly = false) (data : List UInt8) :
    d.write source data = .ok (d.put place (.file (.bytes data))) ∧
      withFolder scripts (d.put place (.file (.bytes data))) =
        (withFolder scripts d).put place (.file (.bytes data)) ∧
      Stable made scripts folder (d.put place (.file (.bytes data))) := by
  have writable := Files.Disk.writable_of_file outside.found
  have inside := stable.housing.inside writable.ne_nil outside.found
  have altered := Files.Disk.altered_put writable (.bytes data)
  have found := (grown scripts d).kept _ _ outside.found
  have altered' := Files.Disk.altered_put (Files.Disk.writable_of_file found) (.bytes data)
  have makes := Files.Disk.makeDirectories_rewritten outside.found (.bytes data) scripts
  rw [stable.makes] at makes
  have same : withFolder scripts (d.put place (.file (.bytes data))) =
      (withFolder scripts d).put place (.file (.bytes data)) := by
    rw [withFolder, makes]
  refine ⟨Files.Disk.write_of_file outside.spellable outside.located outside.found allowed data,
    same,
    ⟨altered.housed stable.housing inside, altered.linkless stable.linkless,
      altered.directory_iff.2 stable.cwd, stable.pinned, by rw [same, makes], ?_, ?_, ?_⟩⟩
  · rw [same]
    exact altered'.reaches stable.reaches
  · rcases stable.placed with reaches | none
    · exact .inl (altered.reaches reaches)
    · refine .inr ((altered.others folder ?_).trans none)
      rintro rfl
      rw [outside.found] at none
      cases none
  · rw [same]
    exact fun other housed => stable.directories other (altered'.directory_iff.1 housed)

end

end Stable

/-! ### One errand -/

/-- What an errand leaves to those after it. -/
structure Stepped (made : Disk) (scripts : Path) (folder : Place) (d : Disk) (e : Errand) :
    Prop where
  done : Done scripts folder d e
  stable : Stable made scripts folder (e.run scripts d)
  same : ∀ name, ¬ e.Decides name →
    (withFolder scripts (e.run scripts d)).tree.find? (folder ++ [name]) =
      (withFolder scripts d).tree.find? (folder ++ [name])
  outside : ∀ source place content, Outside d folder source place content →
    ∃ content', Outside (e.run scripts d) folder source place content'
  writable : (∀ place, d.tree.isReadOnly place = false) →
    ∀ place, (e.run scripts d).tree.isReadOnly place = false

namespace Outside

variable {d d' : Disk} {scripts source : Path} {folder place gap : Place} {name : Name}
  {content : Content}

private theorem read (outside : Outside d folder source place content) :
    d.read source = .ok content :=
  Files.Disk.read_eq_ok.2 ⟨outside.spellable, place, outside.located, outside.found⟩

private theorem grown (outside : Outside d folder source place content) (scripts : Path) :
    Outside (withFolder scripts d) folder source place content where
  spellable := outside.spellable
  located := Files.Disk.locate_mono (Stable.grown scripts d).cwd (Stable.grown scripts d).kept
    outside.located
  found := (Stable.grown scripts d).kept _ _ outside.found
  apart := outside.apart

theorem altered (outside : Outside d folder source place content)
    (altered : Altered d d' (folder ++ [name])) :
    Outside d' folder source place content := by
  have elsewhere := outside.ne_entry name
  exact ⟨outside.spellable, altered.locate elsewhere outside.located,
    (altered.others _ elsewhere).trans outside.found, outside.apart⟩

private theorem rewritten (outside : Outside d folder source place content)
    (writable : d.tree.Writable gap) (new : Content) :
    ∃ content', Outside (d.put gap (.file new)) folder source place content' := by
  have located := Files.Disk.locate_written writable new outside.located
  by_cases same : place = gap
  · exact ⟨new, outside.spellable, located, same ▸ Files.Tree.find?_put_self writable.ne_nil _,
      outside.apart⟩
  · exact ⟨content, outside.spellable, located,
      (Files.Tree.find?_put_ne same _).trans outside.found, outside.apart⟩

end Outside

/-- An errand that does not decide a name is about another entry of the folder. -/
theorem entry_ne_of_undecided {e : Errand} {name other : Name} (decides : e.Decides name)
    (undecided : ¬ e.Decides other) (folder : Place) :
    folder ++ [other] ≠ folder ++ [name] := by
  intro same
  have same := List.singleton_inj.1 (List.append_cancel_left same)
  exact undecided (same ▸ decides)

namespace Stable

variable {made d : Disk} {scripts source : Path} {folder place : Place} {content : Content}

private theorem deploy_step (stable : Stable made scripts folder d)
    (outside : Outside d folder source place content)
    (roomy : ∀ name, source.fileName? = some name → Roomy made scripts folder name)
    (allowed : ∀ name, source.fileName? = some name →
      d.tree.isReadOnly (folder ++ [name]) = false) :
    Stepped made scripts folder d (.deploy source) := by
  obtain ⟨name, named, usable⟩ := Files.Disk.named_of_file stable.linkless stable.housing
    outside.spellable outside.located outside.found
  have room := roomy name named
  obtain ⟨d', ended, altered, found⟩ := stable.deploy outside named usable room
    (allowed name named)
  obtain ⟨stable', made_already⟩ := stable.of_altered altered
  have ran : (Errand.deploy source).run scripts d = d' := by
    rw [Errand.run, ended]
  have seen : d'.status? (scripts.entry name) = some (.file content) := by
    rw [stable'.status?_copy usable room, made_already, found]
  refine ⟨.deployed named outside.read ended (Files.Disk.read_eq_ok_iff_status?.2 seen)
    ((outside.grown scripts).altered altered).read ?_ ?_
    (stable.undeploy_of_deployed named usable room altered found), ran ▸ stable',
    fun other undecided => ?_,
    fun _ _ _ outside => ran ▸ ⟨_, (outside.grown scripts).altered altered⟩,
    fun writable => ran ▸ altered.isReadOnly ?_ fun other => ?_⟩
  · exact fun other node apart found =>
      (altered.others other apart).trans ((grown scripts d).kept _ _ found)
  · intro other apart none
    rcases (grown scripts d).made other none with none | ⟨directory, p, above, located⟩
    · exact .inl ((altered.others other apart).trans none)
    · exact .inr ⟨(altered.others other apart).trans directory, p, above,
        altered.locate apart located⟩
  · have apart := entry_ne_of_undecided (e := .deploy source) named undecided folder
    rw [ran, made_already, altered.others _ apart]
  · have own := writable place
    rw [Files.Tree.isReadOnly, outside.found] at own
    rwa [Files.Tree.isReadOnly, found]
  · exact (isReadOnly_withFolder scripts d other).trans (writable other)

private theorem undeploy_step (stable : Stable made scripts folder d)
    (outside : Outside d folder source place content)
    (roomy : ∀ name, source.fileName? = some name → Roomy made scripts folder name) :
    Stepped made scripts folder d (.undeploy source) := by
  obtain ⟨name, named, usable⟩ := Files.Disk.named_of_file stable.linkless stable.housing
    outside.spellable outside.located outside.found
  have room := roomy name named
  cases there : d.exists? (scripts.entry name) with
  | false =>
    have ended := stable.undeploy_absent named usable room there
    have ran : (Errand.undeploy source).run scripts d = d := by
      rw [Errand.run, ended]
    exact ⟨.notDeployed named there ended, by rwa [ran], fun _ _ => by rw [ran],
      fun _ _ content outside => ⟨content, by rwa [ran]⟩, by rw [ran]; exact id⟩
  | true =>
    obtain ⟨d', ended, same, altered, gone⟩ := stable.undeploy_there named usable room there
    obtain ⟨stable', made_already⟩ := stable.of_altered (same.symm ▸ altered)
    have ran : (Errand.undeploy source).run scripts d = d' := by
      rw [Errand.run, ended]
    have absent : d'.exists? (scripts.entry name) = false := by
      rw [Disk.exists?, stable'.status?_copy usable room, made_already, gone]
      rfl
    refine ⟨.removed named there ended absent altered.others, ran ▸ stable',
      fun other undecided => ?_, fun _ _ _ outside => ran ▸ ⟨_, outside.altered altered⟩,
      ran ▸ altered.isReadOnly (by rw [Files.Tree.isReadOnly, gone])⟩
    have apart := entry_ne_of_undecided (e := .undeploy source) named undecided folder
    rw [ran, made_already, same, altered.others _ apart]

private theorem rewrite_step (stable : Stable made scripts folder d)
    (outside : Outside d folder source place content)
    (allowed : ∀ place, d.locate source = .ok place → d.tree.isReadOnly place = false)
    (data : List UInt8) : Stepped made scripts folder d (.rewrite source data) := by
  have writable := Files.Disk.writable_of_file outside.found
  have own : content.readOnly = false := by
    simpa [Files.Tree.isReadOnly, outside.found] using allowed place outside.located
  obtain ⟨written, same, stable'⟩ := stable.rewrite outside own data
  have ran : (Errand.rewrite source data).run scripts d = d.put place (.file (.bytes data)) := by
    rw [Errand.run, written]
  have read : (d.put place (.file (.bytes data))).read source = .ok (.bytes data) :=
    Files.Disk.read_eq_ok.2 ⟨outside.spellable, place,
      Files.Disk.locate_written writable (.bytes data) outside.located,
      Files.Tree.find?_put_self writable.ne_nil _⟩
  refine ⟨.rewritten outside.located written read
      fun other apart => Files.Tree.find?_put_ne apart _,
    ran ▸ stable', fun name _ => ?_,
    fun _ _ _ outside => ran ▸ outside.rewritten writable (.bytes data),
    ran ▸ (Files.Disk.altered_put writable (.bytes data)).isReadOnly ?_⟩
  · rw [ran, same]
    exact Files.Tree.find?_put_ne (outside.ne_entry name).symm _
  · rw [Files.Tree.isReadOnly, Disk.put, Disk.withTree, Files.Tree.find?_put_self writable.ne_nil]
    rfl

theorem step (stable : Stable made scripts folder d) {e : Errand}
    (outside : Outside d folder e.source place content)
    (roomy : ∀ name, e.Decides name → Roomy made scripts folder name)
    (allowed : e.Allowed d folder) : Stepped made scripts folder d e := by
  cases e with
  | deploy source => exact stable.deploy_step outside roomy allowed
  | undeploy source => exact stable.undeploy_step outside roomy
  | rewrite source data => exact stable.rewrite_step outside allowed data

end Stable

end ModBench
