import ModBench.Project.Scaffold
import ModBench.Proofs.Files.Made

/-!
New mods.  A new mod takes the first name that is free, its script is new, and all that was there
stays as it was.  A mod that cannot be made leaves nothing behind, unless the path of its script is
too long for the system.
-/

set_option autoImplicit false
set_option relaxedAutoImplicit false

namespace ModBench

open Files (Disk Name Place Node Content Usable maxPathLength slashed stepsOf under)
open Files.Disk (Above Fits Fresh Grown isSpellable)
open Scaffold (candidates modName scriptsDir mainScript names)

/-- What a new mod of a name leaves in a workspace. -/
structure Scaffolded (d d' : Disk) (workspace : Path) (name : String) : Prop where
  first : ∃ before after, names = before ++ name :: after ∧
    (∀ other ∈ before, d.exists? (scriptsDir workspace other) = true) ∧
    d.exists? (scriptsDir workspace name) = false
  new : d.exists? (mainScript (scriptsDir workspace name)) = false ∧
    ∀ place, d'.locate (mainScript (scriptsDir workspace name)) = .ok place →
      d.tree.find? place = none
  empty : d'.read (mainScript (scriptsDir workspace name)) = .ok Content.empty
  same : ∀ p, d.exists? p = true → d'.status? p = d.status? p
  kept : ∀ place node, d.tree.find? place = some node → d'.tree.find? place = some node
  made : ∀ place, d.tree.find? place = none → d'.tree.find? place = none ∨
    d'.locate (mainScript (scriptsDir workspace name)) = .ok place ∨
    d'.tree.find? place = some .directory ∧
      ∃ p, Above (scriptsDir workspace name) p ∧ d'.locate p = .ok place

namespace Scaffold

variable {d made : Disk} {workspace scripts : Path} {name : String} {place : Place}

/-- The name of a new mod's script. -/
def mainName : Name := Text.encodeString "main.reds"

/-- The names that lead from a workspace to the scripts of a mod, the last one first. -/
def folders (name : String) : List Name :=
  [ModLayout.scriptsName, ModLayout.r6Name, name].map Text.encodeString

private theorem mainScript_eq (scripts : Path) : mainScript scripts = scripts.entry mainName := rfl

theorem usable_main : Usable mainName := by decide +kernel

theorem usable_folders : ∀ name ∈ names, ∀ n ∈ folders name, Usable n := by
  decide +kernel

theorem usable_script (named : name ∈ names) : ∀ n ∈ mainName :: folders name, Usable n :=
  List.forall_mem_cons.2 ⟨usable_main, usable_folders name named⟩

private theorem scriptsDir_eq (workspace : Path) (name : String) :
    scriptsDir workspace name = under workspace (folders name) :=
  rfl

theorem mainScript_filled (named : name ∈ names) (filled : workspace.bytes ≠ []) :
    (mainScript (scriptsDir workspace name)).bytes ≠ [] :=
  Files.under_filled (usable_script named) filled

theorem write_main_of_long (named : name ∈ names) (spellable : isSpellable workspace = true)
    (filled : workspace.bytes ≠ []) (long : ¬ Fits (mainScript (scriptsDir workspace name)))
    (d : Disk) : d.write (mainScript (scriptsDir workspace name)) [] =
      .error (.system .nameTooLong) :=
  Files.Disk.write_of_long (Files.Disk.isSpellable_under (usable_script named) spellable)
    (mainScript_filled named filled) long d []

/-- The folder for a new mod's scripts is the first one that is not there. -/
private theorem first_free
    (found : (candidates workspace).find? (fun scripts => !d.exists? scripts) =
    some scripts) : ∃ name ∈ names, scripts = scriptsDir workspace name ∧
      d.exists? scripts = false ∧ ∃ before after, names = before ++ name :: after ∧
        (∀ other ∈ before, d.exists? (scriptsDir workspace other) = true) ∧
        d.exists? (scriptsDir workspace name) = false := by
  rw [candidates, List.find?_map, Option.map_eq_some_iff] at found
  obtain ⟨name, found, rfl⟩ := found
  obtain ⟨free, before, after, eq, taken⟩ := List.find?_eq_some_iff_append.1 found
  have free : d.exists? (scriptsDir workspace name) = false := by simpa using free
  exact ⟨name, List.mem_of_find?_eq_some found, rfl, free, before, after, eq,
    fun other mem => by simpa using taken other mem, free⟩

/-- A script in a folder that was not there before is not written over anything. -/
private theorem scaffolded_of_fresh (order : d.tree.InOrder)
    (first : ∃ before after, names = before ++ name :: after ∧
      (∀ other ∈ before, d.exists? (scriptsDir workspace other) = true) ∧
      d.exists? (scriptsDir workspace name) = false)
    (spellable : isSpellable (scriptsDir workspace name) = true)
    (grown : Grown (Above (scriptsDir workspace name)) d made)
    (fresh : Fresh d made (scriptsDir workspace name) place)
    (fits : Fits (mainScript (scriptsDir workspace name))) :
    ∃ d', made.write (mainScript (scriptsDir workspace name)) [] = .ok d' ∧
      Scaffolded d d' workspace name := by
  obtain ⟨left, opens⟩ := fresh.opens
  have free := fresh.bare [mainName] (by simp)
  have free_before : d.tree.find? (place ++ [mainName]) = none :=
    order.find?_below (by simp) (by simp [fresh.free])
  have lacking := opens.reaches.locate_entry usable_main fits (by rw [free]; nofun)
  rw [if_pos free] at lacking
  have absent : made.exists? (mainScript (scriptsDir workspace name)) = false := by
    rw [Disk.exists?, Disk.status?, mainScript_eq, lacking]
    simp
  obtain ⟨written, located⟩ := opens.reaches.write_new usable_main fits spellable free []
  rw [← Content.empty] at written located
  have found : (made.put (place ++ [mainName]) (.file Content.empty)).tree.find?
      (place ++ [mainName]) = some (.file Content.empty) :=
    Files.Tree.find?_put_self (by simp) _
  generalize place ++ [mainName] = gap at free free_before written located found
  have within := Files.Tree.within_put free (.file Content.empty)
  have kept : Files.Tree.Within d.tree (made.put gap (.file Content.empty)).tree :=
    fun other node there => within _ _ (grown.kept _ _ there)
  refine ⟨made.put gap (.file Content.empty), written, first,
    ⟨Files.Disk.not_exists_of_mono grown.cwd grown.kept absent, fun other led => ?_⟩, ?_,
    fun p there => Files.Disk.status?_mono grown.cwd kept there, kept, fun other none => ?_⟩
  · rw [mainScript_eq, located] at led
    exact Except.ok.inj led ▸ free_before
  · exact Files.Disk.read_eq_ok.2
      ⟨Files.Disk.isSpellable_entry usable_main spellable, gap, located, found⟩
  · by_cases script : other = gap
    · exact .inr (.inl (script ▸ located))
    · have elsewhere := Files.Tree.find?_put_ne (t := made.tree) script (.file Content.empty)
      rcases grown.made other none with none | ⟨directory, p, above, led⟩
      · exact .inl (elsewhere.trans none)
      · exact .inr (.inr ⟨elsewhere.trans directory, p, above,
          Files.Disk.locate_mono (d := made) rfl within led⟩)

end Scaffold

open Scaffold in
/-- A new mod has the first of the names whose folder for scripts is not there; its script is new
and empty, and nothing that was there before is changed.  If no mod is made the disk stays as it
was, unless just the path of the script is too long: then the folders for it are there. -/
theorem scaffolding_never_overwrites (d : Disk) (order : d.tree.InOrder) (workspace : Path) :
    (∀ main d', newMod d workspace = (.ok main, d') →
      ∃ name, main = (((workspace.child name).child "r6").child "scripts").child "main.reds" ∧
        Scaffolded d d' workspace name) ∧
    ∀ fault d', newMod d workspace = (.error fault, d') → d' = d ∨
      ∃ scripts ∈ candidates workspace, Grown (Above scripts) d d' ∧
        d'.isDirectory scripts = true ∧
        fault = .files .create (mainScript scripts) (.system .nameTooLong) ∧
        maxPathLength ≤ (mainScript scripts).bytes.length := by
  unfold newMod
  split
  swap
  · refine ⟨nofun, fun fault d' failed => .inl ?_⟩
    exact (Prod.mk.inj failed).2.symm
  rename_i there
  cases found : (candidates workspace).find? fun scripts => !d.exists? scripts with
  | none => exact ⟨nofun, fun fault d' failed => .inl (Prod.mk.inj failed).2.symm⟩
  | some scripts =>
    dsimp only
    obtain ⟨name, named, rfl, free, first⟩ := first_free found
    have usable := usable_folders name named
    have grown := Files.Disk.grown_makeDirectories d (scriptsDir workspace name)
    have hidden := Files.Disk.not_isDirectory_of_free free
    rcases Files.Disk.makeDirectories_under order there usable hidden with
      ⟨fault, failed, _⟩ | ⟨made, place, done, fresh⟩
    · rw [← scriptsDir_eq] at failed
      rw [failed]
      exact ⟨nofun, fun _ d' same => .inl (Prod.mk.inj same).2.symm⟩
    · rw [← scriptsDir_eq] at done fresh
      rw [done] at grown ⊢
      obtain ⟨spellable, _, _, opens⟩ := Files.Disk.opens_of_isDirectory there
      dsimp only
      by_cases fits : Fits (mainScript (scriptsDir workspace name))
      · obtain ⟨d', written, scaffolded⟩ :=
          scaffolded_of_fresh order first (Files.Disk.isSpellable_under usable spellable) grown
            fresh
            fits
        rw [written]
        refine ⟨fun main left ended => ?_, nofun⟩
        obtain ⟨same, rfl⟩ := Prod.mk.inj ended
        exact ⟨name, (Except.ok.inj same).symm, scaffolded⟩
      · rw [write_main_of_long named spellable opens.fits.filled fits]
        refine ⟨nofun, fun fault d' ended => .inr ?_⟩
        obtain ⟨same, rfl⟩ := Prod.mk.inj ended
        obtain ⟨_, there⟩ := fresh.opens
        exact ⟨scriptsDir workspace name, List.mem_map_of_mem named, grown,
          there.isDirectory (Files.Disk.isSpellable_under usable spellable),
          (Except.error.inj same).symm,
          Files.Disk.length_of_not_fits (mainScript_filled named opens.fits.filled) fits⟩

example : names = ["myMod", "myMod_0", "myMod_1", "myMod_2", "myMod_3", "myMod_4", "myMod_5",
    "myMod_6", "myMod_7", "myMod_8", "myMod_9"] := by decide +kernel

/-- A workspace in which one mod is a link, and the scripts of another one are seen through a link
to a directory elsewhere. -/
def linkedWorkspace : Disk :=
  { tree := [(stepsOf (.ofString "shared"), .directory),
      (stepsOf (.ofString "shared/scripts"), .directory),
      (stepsOf (.ofString "shared/scripts/main.reds"), .file (.ofString "func Mine() \x7b\x7d")),
      (stepsOf (.ofString "ws"), .directory),
      (stepsOf (.ofString "ws/myMod"), .directory),
      (stepsOf (.ofString "ws/myMod/r6"), .link (.ofString "../../shared")),
      (stepsOf (.ofString "disk"), .directory),
      (stepsOf (.ofString "ws/myMod_0"), .link (.ofString "../disk"))] }

/-- The script that is seen as the first mod's own keeps its text, and the new mod is made where the
second link leads. -/
theorem linked_scripts_are_kept :
    linkedWorkspace.tree.InOrder ∧ ∃ d', newMod linkedWorkspace (.ofString "ws") =
        (.ok (.ofString "ws/myMod_0/r6/scripts/main.reds"), d') ∧
      d'.read (.ofString "ws/myMod_0/r6/scripts/main.reds") = .ok Content.empty ∧
      d'.tree.find? (stepsOf (.ofString "shared/scripts/main.reds")) =
        some (.file (.ofString "func Mine() \x7b\x7d")) := by
  have order : linkedWorkspace.tree.InOrder := by decide +kernel
  have ok : (newMod linkedWorkspace (.ofString "ws")).1 =
      .ok (.ofString "ws/myMod_0/r6/scripts/main.reds") := by decide +kernel
  have mine : linkedWorkspace.tree.find? (stepsOf (.ofString "shared/scripts/main.reds")) =
      some (.file (.ofString "func Mine() \x7b\x7d")) := by decide +kernel
  generalize ended : newMod linkedWorkspace (.ofString "ws") = left at ok
  obtain ⟨result, d'⟩ := left
  obtain rfl := ok
  obtain ⟨name, main, scaffolded⟩ :=
    (scaffolding_never_overwrites linkedWorkspace order (.ofString "ws")).1 _ d' ended
  have empty := scaffolded.empty
  have same : mainScript (scriptsDir (.ofString "ws") name) =
      .ofString "ws/myMod_0/r6/scripts/main.reds" := main.symm
  rw [same] at empty
  exact ⟨order, d', rfl, empty, scaffolded.kept _ _ mine⟩

/-! ### A script whose path is too long -/

namespace Scaffold

/-- A disk with one directory. -/
def bareWorkspace : Disk :=
  { tree := [([Files.slashedName], .directory)] }

/-- Where only the script's path is too long, the mod is not made, and its folders are. -/
private theorem newMod_slashed {count : Nat} (fits : count + 18 < maxPathLength)
    (long : maxPathLength ≤ count + 28) :
    ∃ fault d', newMod bareWorkspace (slashed count) = (.error fault, d') ∧ d' ≠ bareWorkspace := by
  have usable : ∀ n ∈ folders modName, Usable n := usable_folders modName List.mem_cons_self
  have workspace_fits : Fits (slashed count) := Files.Disk.fits_slashed (by omega)
  have scripts_fits : Fits (scriptsDir (slashed count) modName) := by
    refine (Files.Disk.fits_slashed_iff count _ usable).2 ?_
    have added : (under ⟨[slash]⟩ (folders modName)).bytes.length = 17 := by decide +kernel
    omega
  have main_long : ¬ Fits (mainScript (scriptsDir (slashed count) modName)) := by
    refine mt (Files.Disk.fits_slashed_iff count _ (usable_script List.mem_cons_self)).1 ?_
    have added : (under ⟨[slash]⟩ (mainName :: folders modName)).bytes.length = 27 := by
      decide +kernel
    omega
  have spellable := Files.Disk.isSpellable_slashed count
  have opens := Files.Disk.opens_slashed (d := bareWorkspace) rfl rfl workspace_fits
  have free :
      bareWorkspace.tree.find? ([Files.slashedName] ++ [Text.encodeString modName]) = none := by
    decide +kernel
  have absent : bareWorkspace.exists? (scriptsDir (slashed count) modName) = false :=
    opens.exists?_free ([ModLayout.scriptsName, ModLayout.r6Name].map Text.encodeString) usable free
      scripts_fits
  have order : bareWorkspace.tree.InOrder := by decide +kernel
  obtain ⟨made, place, done, fresh⟩ := opens.makeDirectories_new order spellable
    ([ModLayout.scriptsName, ModLayout.r6Name].map Text.encodeString) usable free scripts_fits
  have failed :=
    write_main_of_long List.mem_cons_self spellable workspace_fits.filled main_long made
  refine ⟨.files .create (mainScript (scriptsDir (slashed count) modName)) (.system .nameTooLong),
    made, ?_, ?_⟩
  · have found : (candidates (slashed count)).find? (fun scripts =>
        !bareWorkspace.exists? scripts) = some (scriptsDir (slashed count) modName) :=
      List.find?_cons_of_pos (by simp [absent])
    have done : bareWorkspace.makeDirectories (scriptsDir (slashed count) modName) =
        (.ok (), made) := done
    rw [newMod, if_pos (opens.isDirectory spellable), found]
    dsimp only
    rw [done]
    dsimp only
    rw [failed]
  · rintro rfl
    obtain ⟨left, opens⟩ := fresh.opens
    have housed := opens.housed
    rw [fresh.free] at housed
    cases housed

end Scaffold

open Scaffold in
/-- A mod that is not made can leave its folders behind. -/
theorem overlong_script_leaves_folders : bareWorkspace.tree.InOrder ∧
    ∃ fault d', newMod bareWorkspace (slashed 4071) = (.error fault, d') ∧ d' ≠ bareWorkspace :=
  ⟨by decide +kernel, newMod_slashed (by decide) (by decide)⟩

end ModBench
