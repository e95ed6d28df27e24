import ModBench.Project.Deploy
import ModBench.Proofs.Files.Written

/-!
Deploying scripts.  A deployment leaves a copy of the script under its own name and nothing else but
directories on the way to it; one that fails leaves such directories at most, as long as all files
are the caller's own.  A script that lies where it would be deployed is emptied.
-/

set_option autoImplicit false
set_option relaxedAutoImplicit false

namespace ModBench

open Files (Disk Place Node Content stepsOf)
open Files.Disk (Above Copied Grown)

/-- What a deployment leaves.  The script and its copy read alike, as the script did before, unless
the two are one file. -/
structure Deployed (d d' : Disk) (source scripts destination : Path) : Prop where
  named : ∃ name, source.fileName? = some name ∧ destination = scripts.entry name
  copied : d'.locate source ≠ d'.locate destination →
    ∃ content, d'.read destination = .ok content ∧ d'.read source = .ok content ∧
      ∀ before, d.read source = .ok before → before = content
  emptied : d'.locate source = d'.locate destination → d'.read source = .ok Content.empty
  kept : ∀ place node, d.tree.find? place = some node → d'.locate destination ≠ .ok place →
    d'.tree.find? place = some node
  made : ∀ place, d.tree.find? place = none → d'.locate destination ≠ .ok place →
    d'.tree.find? place = none ∨
      d'.tree.find? place = some .directory ∧ ∃ p, Above scripts p ∧ d'.locate p = .ok place

namespace Deployed

variable {d made d' : Disk} {source scripts destination : Path} {place target : Place}
  {content : Content}

/-- A copy that was made once the folder for scripts was there. -/
private theorem of_copied (grown : Grown (Above scripts) d made)
    (named : ∃ name, source.fileName? = some name ∧ destination = scripts.entry name)
    (copied : Copied made d' source destination place target content) :
    Deployed d d' source scripts destination := by
  have source_located : d'.locate source = .ok place := copied.located _ _ copied.read.1
  have one_file : d'.locate source = d'.locate destination ↔ target = place := by
    rw [source_located, copied.written, Except.ok.injEq, eq_comm]
  have elsewhere : ∀ {other}, d'.locate destination ≠ .ok other → other ≠ target := by
    rintro other apart rfl
    exact apart copied.written
  refine ⟨named, fun apart => ?_, fun same => ?_, fun other node found apart => ?_,
    fun other none apart => ?_⟩
  · have apart : target ≠ place := fun same => apart (one_file.2 same)
    have found := copied.found
    rw [if_neg apart] at found
    refine ⟨content, Files.Disk.read_eq_ok.2 ⟨copied.spellable.2, target, copied.written, found⟩,
      Files.Disk.read_eq_ok.2 ⟨copied.spellable.1, place, source_located, ?_⟩,
      fun before read => ?_⟩
    · rw [copied.others place apart.symm]
      exact copied.read.2
    · obtain ⟨_, place', located, found'⟩ := Files.Disk.read_eq_ok.1 read
      have still := Files.Disk.locate_mono grown.cwd grown.kept located
      rw [copied.read.1] at still
      obtain rfl := Except.ok.inj still
      have kept := grown.kept _ _ found'
      rw [copied.read.2] at kept
      exact (Node.file.inj (Option.some.inj kept)).symm
  · have found := copied.found
    obtain rfl := one_file.1 same
    rw [if_pos rfl] at found
    exact Files.Disk.read_eq_ok.2 ⟨copied.spellable.1, target, source_located, found⟩
  · rw [copied.others other (elsewhere apart)]
    exact grown.kept other node found
  · rw [copied.others other (elsewhere apart)]
    rcases grown.made other none with none | ⟨directory, p, above, located⟩
    · exact .inl none
    · exact .inr ⟨directory, p, above, copied.located p other located⟩

end Deployed

private theorem deployedAt_eq_ok {source scripts destination : Path}
    (at_name : deployedAt source scripts = .ok destination) :
    ∃ name, source.fileName? = some name ∧ destination = scripts.entry name := by
  unfold deployedAt at at_name
  split at at_name
  · rename_i name named
    exact ⟨name, named, (Except.ok.inj at_name).symm⟩
  · cases at_name

/-- A deployment that succeeds copies the script, and one that fails touches no file of those that
the disk knows, which are all the caller's own.  Either way nothing else comes to the disk but
directories on the way to the folder for scripts, and whatever stood there stands there still,
except for an earlier file in the copy's place.  If the script lies in that place itself it is
emptied. -/
theorem deploying_leaves_only_the_copy (d : Disk) (order : d.tree.InOrder)
    (source scripts : Path) :
    (∀ destination d', deploy d source scripts = (.ok destination, d') →
      Deployed d d' source scripts destination) ∧
    ∀ fault d', deploy d source scripts = (.error fault, d') → Grown (Above scripts) d d' := by
  have grown := Files.Disk.grown_makeDirectories d scripts
  have housing := grown.housing order.housing
  unfold deploy
  cases at_name : deployedAt source scripts with
  | error fault =>
    refine ⟨nofun, fun _ d' failed => ?_⟩
    obtain ⟨-, rfl⟩ := Prod.mk.inj failed
    exact .refl _ d
  | ok destination =>
    cases ended : d.makeDirectories scripts with
    | mk result made =>
      rw [ended] at grown housing
      cases result with
      | error fault =>
        refine ⟨nofun, fun _ d' failed => ?_⟩
        obtain ⟨-, rfl⟩ := Prod.mk.inj failed
        exact grown
      | ok _ =>
        dsimp only
        cases copying : made.copy source destination with
        | error fault =>
          refine ⟨nofun, fun _ d' failed => ?_⟩
          obtain ⟨-, rfl⟩ := Prod.mk.inj failed
          exact grown
        | ok copy =>
          refine ⟨fun _ d' deployed => ?_, nofun⟩
          obtain ⟨same, rfl⟩ := Prod.mk.inj deployed
          obtain rfl := Except.ok.inj same
          obtain ⟨place, target, content, copied⟩ := Files.Disk.copied_of_copy housing copying
          exact .of_copied grown (deployedAt_eq_ok at_name) copied

/-- A game whose folder is a link to a directory without a folder for scripts, and a script that is
a link too. -/
def linkedGame : Disk :=
  { tree := [(stepsOf (.ofString "mods"), .directory),
      (stepsOf (.ofString "mods/a.reds"), .link (.ofString "../b.reds")),
      (stepsOf (.ofString "b.reds"), .file (.ofString "func B() \x7b\x7d")),
      (stepsOf (.ofString "disk"), .directory),
      (stepsOf (.ofString "game"), .link (.ofString "disk"))] }

def linkedScript : Path := .ofString "mods/a.reds"

def linkedScripts : Path := .ofString "game/r6/scripts"

def linkedCopy : Path := .ofString "game/r6/scripts/a.reds"

/-- Deployed through links, a script is copied and stays as it was. -/
theorem linked_script_is_copied :
    linkedGame.tree.InOrder ∧ ∃ d', deploy linkedGame linkedScript linkedScripts =
        (.ok linkedCopy, d') ∧
      d'.locate linkedCopy = .ok (stepsOf (.ofString "disk/r6/scripts/a.reds")) ∧
      d'.read linkedCopy = .ok (.ofString "func B() \x7b\x7d") ∧
      d'.read linkedScript = .ok (.ofString "func B() \x7b\x7d") ∧
      d'.tree.find? (stepsOf (.ofString "game")) = some (.link (.ofString "disk")) := by
  have order : linkedGame.tree.InOrder := by decide +kernel
  have ok : (deploy linkedGame linkedScript linkedScripts).1 = .ok linkedCopy := by
    decide +kernel
  have located : (deploy linkedGame linkedScript linkedScripts).2.locate
      linkedCopy = .ok (stepsOf (.ofString "disk/r6/scripts/a.reds")) := by decide +kernel
  have script : (deploy linkedGame linkedScript linkedScripts).2.locate
      linkedScript = .ok (stepsOf (.ofString "b.reds")) := by decide +kernel
  have was : linkedGame.read linkedScript = .ok (.ofString "func B() \x7b\x7d") := by
    decide +kernel
  have link : linkedGame.tree.find? (stepsOf (.ofString "game")) =
      some (.link (.ofString "disk")) := by decide +kernel
  have other : stepsOf (.ofString "disk/r6/scripts/a.reds") ≠ stepsOf (.ofString "game") := by
    decide +kernel
  have elsewhere : stepsOf (.ofString "b.reds") ≠ stepsOf (.ofString "disk/r6/scripts/a.reds") := by
    decide +kernel
  generalize deployed : deploy linkedGame linkedScript linkedScripts = left
    at ok located script
  obtain ⟨result, d'⟩ := left
  obtain rfl : result = .ok linkedCopy := ok
  have leaves := (deploying_leaves_only_the_copy linkedGame order linkedScript
    linkedScripts).1 linkedCopy d' deployed
  have apart : d'.locate linkedScript ≠ d'.locate linkedCopy := by
    rw [script, located]
    exact fun same => elsewhere (Except.ok.inj same)
  obtain ⟨content, copy, kept, before⟩ := leaves.copied apart
  obtain rfl := before _ was
  refine ⟨order, d', rfl, located, copy, kept, leaves.kept _ _ link ?_⟩
  rw [located]
  exact fun same => other (Except.ok.inj same)

/-- A script in the folder for scripts. -/
def deployedInPlace : Disk :=
  { tree := [(stepsOf (.ofString "scripts"), .directory),
      (stepsOf (.ofString "scripts/a.reds"), .file (.ofString "func A() \x7b\x7d"))] }

/-- A script that lies where it is deployed is lost, and the deployment succeeds. -/
theorem deployed_in_place_is_emptied :
    let script := Path.ofString "scripts/a.reds"
    let deployed := deploy deployedInPlace script (.ofString "scripts")
    deployedInPlace.tree.InOrder ∧ deployed.1 = .ok script ∧
      deployedInPlace.read script = .ok (.ofString "func A() \x7b\x7d") ∧
      deployed.2.read script = .ok Content.empty ∧
      Content.empty ≠ Content.ofString "func A() \x7b\x7d" := by
  refine ⟨?_, ?_, ?_, ?_, ?_⟩ <;> decide +kernel

end ModBench
