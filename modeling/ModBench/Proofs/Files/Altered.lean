import ModBench.Proofs.Files.Made

/-!
Files that come, go or change.  All ways to other places stay as they are when a file does, and
directories are made as they would have been made before.
-/

set_option autoImplicit false
set_option relaxedAutoImplicit false

namespace ModBench.Files

namespace Tree

variable {t s : Tree} {follow : Bool} {links left : Nat} {here place gap : Place}
  {steps : List Name} {name : Name} {old : Content}

/-- No link stands anywhere. -/
def Linkless (t : Tree) : Prop :=
  ∀ place target, t.find? place ≠ some (.link target)

theorem linkless_of_mem (none : ∀ e ∈ t, ∀ target, e.2 ≠ .link target) : t.Linkless := by
  intro place target found
  have root : place ≠ [] := by
    rintro rfl
    cases found
  exact none _ (mem_of_find? root found) target rfl

theorem isReadOnly_of_mem (none : ∀ e ∈ t, t.isReadOnly e.1 = false) (place : Place) :
    t.isReadOnly place = false := by
  by_cases root : place = []
  · rw [root]
    rfl
  · cases found : t.find? place with
    | none => rw [isReadOnly, found]
    | some node => exact none (place, node) (mem_of_find? root found)

/-- A way to another place does not lead through a place where a file may stand. -/
theorem Leads.altered (led : t.Leads links here steps left place) (writable : t.Writable gap)
    (others : ∀ other, other ≠ gap → s.find? other = t.find? other) (apart : place ≠ gap) :
    s.Leads links here steps left place := by
  have directory : ∀ {here}, t.find? here = some .directory → s.find? here = some .directory := by
    intro here housed
    rw [others here, housed]
    rintro rfl
    exact writable.no_directory housed
  induction led with
  | stay => exact .stay _ _
  | here housed _ ih => exact .here (directory housed) (ih apart)
  | up housed _ ih => exact .up (directory housed) (ih apart)
  | enter housed looked found real more ih =>
    rename_i before goal rest name node
    by_cases same : before ++ [name] = gap
    · rw [same] at more
      cases more with
      | stay => exact absurd rfl apart
      | here housed => exact absurd housed writable.no_directory
      | up housed => exact absurd housed writable.no_directory
      | enter housed => exact absurd housed writable.no_directory
      | through housed => exact absurd housed writable.no_directory
    · exact .enter (directory housed) looked ((others _ same).trans found) real (ih apart)
  | through housed looked found _ ih =>
    refine .through (directory housed) looked ((others _ ?_).trans found) (ih apart)
    exact fun same => writable.no_link _ (same ▸ found)

/-! ### Files that are written again -/

private theorem put_comm {other : Place} (there : t.find? place ≠ none)
    (free : t.find? other = none) (root : other ≠ []) (node node' : Node) :
    (t.put place node).put other node' = (t.put other node').put place node := by
  have apart : other ≠ place := fun same => there (same ▸ free)
  by_cases top : place = []
  · have idle : ∀ s : Tree, s.put [] node = s := fun s => if_pos rfl
    rw [top, idle, idle]
  have new := (find?_eq_none_iff root).1 free
  have listed : (t.any fun e => e.1 == place) = true := by
    by_contra unlisted
    exact there ((find?_eq_none_iff top).2 fun e mem same =>
      unlisted (List.any_eq_true.2 ⟨e, mem, by simpa using same⟩))
  have new' : ∀ e ∈ t.map (fun e => if e.1 == place then (e.1, node) else e), e.1 ≠ other := by
    intro e mem
    obtain ⟨old, among, rfl⟩ := List.mem_map.1 mem
    split <;> exact new old among
  have renamed : t.put place node = t.map fun e => if e.1 == place then (e.1, node) else e := by
    rw [put, if_neg top, if_pos listed]
  rw [renamed, put_of_new root new', put_of_new root new, put, if_neg top,
    if_pos (by simp [listed])]
  simp [apart]

/-- A walk does not see what a file holds. -/
private theorem walk_rewritten (found : t.find? gap = some (.file old)) (content : Content) :
    (t.put gap (.file content)).walk follow links here steps = t.walk follow links here steps := by
  have root : gap ≠ [] := by
    rintro rfl
    cases found
  have directory : ∀ here, (t.put gap (.file content)).find? here = some .directory ↔
      t.find? here = some .directory := by
    intro here
    by_cases same : here = gap
    · rw [same, find?_put_self root, found]
      simp
    · rw [find?_put_ne same]
  induction links, here, steps using walk_induction with
  | nil links here => rw [walk_nil, walk_nil]
  | cons links here name rest ih fewer =>
    rw [walk_cons, walk_cons, ih, ih, ih]
    simp only [ne_eq, directory]
    by_cases same : here ++ [name] = gap
    · rw [same, find?_put_self root, found]
    · rw [find?_put_ne same]
      cases t.find? (here ++ [name]) with
      | none => rfl
      | some node =>
        cases node with
        | file => rfl
        | directory => rfl
        | link target =>
          cases links with
          | zero => rfl
          | succ links =>
            dsimp only
            rw [fewer links (Nat.lt_succ_self links)]

end Tree

namespace Disk

variable {d d' : Disk} {p : Path} {place gap : Place} {old : Content}

/-! ### Disks that agree but for one file -/

/-- A file has come to a place, has gone from it, or has been written again. -/
structure Altered (d d' : Disk) (gap : Place) : Prop where
  cwd : d'.cwd = d.cwd
  pinned : d'.pinned = d.pinned
  before : d.tree.Writable gap
  after : d'.tree.Writable gap
  others : ∀ place, place ≠ gap → d'.tree.find? place = d.tree.find? place

theorem altered_put (writable : d.tree.Writable gap) (content : Content) :
    Altered d (d.put gap (.file content)) gap :=
  ⟨rfl, rfl, writable, writable.put content, fun _ apart => Tree.find?_put_ne apart _⟩

theorem altered_delete (writable : d.tree.Writable gap) :
    Altered d (d.withTree (d.tree.delete gap)) gap := by
  refine ⟨rfl, rfl, writable, fun node found => ?_, fun _ apart => Tree.find?_delete_ne _ apart⟩
  have gone := Tree.find?_delete_self d.tree writable.ne_nil
  rw [withTree, gone] at found
  cases found

namespace Altered

variable (altered : Altered d d' gap)
include altered

theorem trans {d'' : Disk} (second : Altered d' d'' gap) : Altered d d'' gap :=
  ⟨second.cwd.trans altered.cwd, second.pinned.trans altered.pinned, altered.before, second.after,
    fun place apart => (second.others place apart).trans (altered.others place apart)⟩

private theorem ne_of_directory (housed : d.tree.find? place = some .directory) : place ≠ gap := by
  rintro rfl
  exact altered.before.no_directory housed

theorem directory_iff : d'.tree.find? place = some .directory ↔
    d.tree.find? place = some .directory := by
  by_cases same : place = gap
  · rw [same]
    exact iff_of_false altered.after.no_directory altered.before.no_directory
  · rw [altered.others place same]

theorem reaches (reaches : d.Reaches p place) : d'.Reaches p place := by
  obtain ⟨left, led⟩ := reaches.led
  have apart := altered.ne_of_directory reaches.housed
  rw [← start_of_cwd altered.cwd] at led
  exact ⟨⟨left, led.altered altered.before altered.others apart⟩,
    altered.directory_iff.2 reaches.housed⟩

theorem locate (apart : place ≠ gap) (located : d.locate p = .ok place) :
    d'.locate p = .ok place := by
  obtain ⟨fits, left, led⟩ := exists_leads_of_locate located
  rw [← start_of_cwd altered.cwd] at led
  exact locate_of_leads fits (led.altered altered.before altered.others apart)

/-- Where no file is read-only, none becomes so but the one that was put there. -/
theorem isReadOnly (own : d'.tree.isReadOnly gap = false)
    (writable : ∀ place, d.tree.isReadOnly place = false) (place : Place) :
    d'.tree.isReadOnly place = false := by
  by_cases same : place = gap
  · rwa [same]
  · rw [Tree.isReadOnly, altered.others place same]
    exact writable place

theorem linkless (linkless : d.tree.Linkless) : d'.tree.Linkless := by
  intro place target found
  by_cases same : place = gap
  · exact altered.after.no_link target (same ▸ found)
  · rw [altered.others place same] at found
    exact linkless place target found

theorem housed (housing : d.tree.Housed) (inside : d.tree.find? gap.dropLast = some .directory) :
    d'.tree.Housed := by
  intro front last there
  refine altered.directory_iff.2 ?_
  by_cases same : front ++ [last] = gap
  · rwa [← same, List.dropLast_concat] at inside
  · rw [altered.others _ same] at there
    exact housing front last there

end Altered

/-! ### Directories on a disk with a file written again -/

theorem writable_of_file (found : d.tree.find? gap = some (.file old)) : d.tree.Writable gap := by
  intro node other
  rw [found] at other
  exact ⟨old, (Option.some.inj other).symm⟩

theorem walkSteps_rewritten (found : d.tree.find? gap = some (.file old)) (content : Content)
    (follow : Bool) (p : Path) (steps : List Name) :
    (d.put gap (.file content)).walkSteps follow p steps = d.walkSteps follow p steps := by
  unfold walkSteps
  split
  · rfl
  split
  · rfl
  · exact Tree.walk_rewritten found content

private theorem isDirectory_rewritten (found : d.tree.find? gap = some (.file old))
    (content : Content) (p : Path) :
    (d.put gap (.file content)).isDirectory p = d.isDirectory p := by
  have altered := altered_put (writable_of_file found) content
  have located : (d.put gap (.file content)).locate p = d.locate p := by
    unfold locate walk
    rw [walkSteps_rewritten found]
  unfold isDirectory status?
  rw [located]
  split
  · cases d.locate p with
    | error => rfl
    | ok place =>
      rw [Bool.eq_iff_iff, beq_iff_eq, beq_iff_eq]
      exact altered.directory_iff
  · rfl

theorem makeDirectory_rewritten (found : d.tree.find? gap = some (.file old)) (content : Content)
    (p : Path) : (d.put gap (.file content)).makeDirectory p =
      (d.makeDirectory p).map fun d => d.put gap (.file content) := by
  unfold makeDirectory
  rw [walkSteps_rewritten found]
  split
  swap
  · rfl
  cases walked : d.walkSteps false p (stepsOf p) with
  | error => rfl
  | ok landing =>
    cases landing with
    | node => rfl
    | vacant directory name =>
      have fits := fits_of_walkSteps walked
      rw [walkSteps_of_fits fits] at walked
      have real : ∀ target, Node.directory ≠ .link target := by simp
      have free := (Tree.leads_of_vacant walked real).1.free
      have swapped := Tree.put_comm (found ▸ Option.some_ne_none _) free (by simp)
        (.file content) .directory
      exact congrArg (fun t => Except.ok (d.withTree t)) swapped

theorem isThere_rewritten (found : d.tree.find? gap = some (.file old)) (content : Content)
    (p : Path) (fault : Fault) :
    (d.put gap (.file content)).isThere p fault = d.isThere p fault := by
  rw [isThere, isThere, isDirectory_rewritten found]

theorem find?_of_makeDirectory {node : Node} (found : d.tree.find? gap = some node)
    (made : d.makeDirectory p = .ok d') : d'.tree.find? gap = some node := by
  have grown : Grown (fun _ => True) d d' := grown_of_makeDirectory trivial made
  exact grown.kept _ _ found

private theorem makeEach_rewritten (found : d.tree.find? gap = some (.file old)) (content : Content)
    (paths : List Path) : (d.put gap (.file content)).makeEach paths =
      ((d.makeEach paths).1, (d.makeEach paths).2.put gap (.file content)) := by
  induction paths generalizing d with
  | nil => rfl
  | cons p rest ih =>
    rw [makeEach, makeEach, makeDirectory_rewritten found]
    cases made : d.makeDirectory p with
    | ok d' => exact ih (find?_of_makeDirectory found made)
    | error fault =>
      dsimp only [Except.map]
      rw [isThere_rewritten found]
      split
      · exact ih found
      · rfl

private theorem makeFrom_rewritten (found : d.tree.find? gap = some (.file old)) (content : Content)
    (paths missing : List Path) : (d.put gap (.file content)).makeFrom paths missing =
      ((d.makeFrom paths missing).1, (d.makeFrom paths missing).2.put gap (.file content)) := by
  induction paths generalizing missing with
  | nil => exact makeEach_rewritten found content missing
  | cons p rest ih =>
    rw [makeFrom_cons, makeFrom_cons, makeDirectory_rewritten found]
    split
    · exact makeEach_rewritten found content missing
    cases made : d.makeDirectory p with
    | ok d' => exact makeEach_rewritten (find?_of_makeDirectory found made) content missing
    | error fault =>
      dsimp only [Except.map]
      rw [isThere_rewritten found]
      split
      · exact ih (p :: missing)
      split
      · exact makeEach_rewritten found content missing
      · rfl

/-- Making directories does not depend on what a file holds, and leaves it alone. -/
theorem makeDirectories_rewritten (found : d.tree.find? gap = some (.file old)) (content : Content)
    (p : Path) : (d.put gap (.file content)).makeDirectories p =
      ((d.makeDirectories p).1, (d.makeDirectories p).2.put gap (.file content)) := by
  rw [makeDirectories_eq, makeDirectories_eq, makeFrom_rewritten found]

end Disk

end ModBench.Files
