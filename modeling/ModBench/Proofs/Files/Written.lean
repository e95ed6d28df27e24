import ModBench.Files.Directories
import ModBench.Proofs.Files.Opened

/-!
Files that are written and directories that are made.  A path at whose end something was made leads
to it, and paths that led somewhere before lead there still.  Making directories adds directories on
the way to the last of them and changes nothing else.
-/

set_option autoImplicit false
set_option relaxedAutoImplicit false

namespace ModBench.Files

namespace Tree

variable {t : Tree} {follow : Bool} {links left : Nat} {here place directory gap : Place}
  {steps : List Name} {name : Name} {node : Node}

/-! ### Trees in which everything stands in a directory -/

/-- Everything stands in a directory. -/
def Housed (t : Tree) : Prop :=
  ∀ place name, t.find? (place ++ [name]) ≠ none → t.find? place = some .directory

theorem InOrder.housing (order : t.InOrder) : t.Housed :=
  fun _ _ there => order.directory_of_below (List.cons_ne_nil _ _) there

theorem Housed.dropLast (housed : t.Housed) (found : t.find? here = some .directory) :
    t.find? here.dropLast = some .directory := by
  rcases List.eq_nil_or_concat here with rfl | ⟨front, name, rfl⟩
  · exact found
  · rw [List.concat_eq_append] at found ⊢
    rw [List.dropLast_concat]
    exact housed front name (by simp [found])

theorem Housed.inside (housed : t.Housed) (root : here ≠ [])
    (found : t.find? here = some node) : t.find? here.dropLast = some .directory := by
  rcases List.eq_nil_or_concat here with rfl | ⟨front, name, rfl⟩
  · exact absurd rfl root
  · rw [List.concat_eq_append] at found ⊢
    rw [List.dropLast_concat]
    exact housed front name (by simp [found])

/-- Steps that begin at something that is no link lead to something that is no link. -/
theorem Leads.arrives (housing : t.Housed) (led : t.Leads links here steps left place)
    (begins : ∃ node, t.find? here = some node ∧ ∀ target, node ≠ .link target) :
    ∃ node, t.find? place = some node ∧ ∀ target, node ≠ .link target := by
  induction led with
  | stay => exact begins
  | here _ _ ih => exact ih begins
  | up housed _ ih => exact ih ⟨.directory, housing.dropLast housed, by simp⟩
  | enter _ _ found real _ ih => exact ih ⟨_, found, real⟩
  | through housed _ _ _ ih =>
    refine ih ⟨.directory, ?_, by simp⟩
    split
    · rfl
    · exact housed

/-! ### Places that are free -/

/-- A place in a directory at which nothing stands. -/
structure Vacant (t : Tree) (directory : Place) (name : Name) : Prop where
  housed : t.find? directory = some .directory
  free : t.find? (directory ++ [name]) = none

private theorem Vacant.housing (vacant : t.Vacant directory name) (housing : t.Housed)
    (node : Node) : (t.put (directory ++ [name]) node).Housed := by
  intro front last there
  refine within_put vacant.free node front .directory ?_
  by_cases same : front ++ [last] = directory ++ [name]
  · rw [(List.append_inj' same rfl).1]
    exact vacant.housed
  · rw [find?_put_ne same] at there
    exact housing front last there

/-- A walk that ends at a free place leads to what is put there. -/
theorem leads_of_vacant
    (walked : t.walk follow links here steps = .ok (.vacant directory name)) {node : Node}
    (real : ∀ target, node ≠ .link target) :
    t.Vacant directory name ∧
      ∃ left, (t.put (directory ++ [name]) node).Leads links here steps left
        (directory ++ [name]) := by
  induction links, here, steps using walk_induction with
  | nil links here =>
    rw [walk_nil] at walked
    cases walked
  | cons links here step rest ih fewer =>
    obtain ⟨housed, taken⟩ := taken_of_walk walked
    cases taken with
    | here dot more =>
      obtain ⟨vacant, left, led⟩ := ih _ more
      exact ⟨vacant, left, dot ▸ .here (within_put vacant.free node _ _ housed) led⟩
    | up dots more =>
      obtain ⟨vacant, left, led⟩ := ih _ more
      exact ⟨vacant, left, dots ▸ .up (within_put vacant.free node _ _ housed) led⟩
    | vacant looked last ends free =>
      obtain ⟨rfl, rfl⟩ := Landing.vacant.inj ends
      subst last
      refine ⟨⟨housed, free⟩, links, ?_⟩
      have here : (t.put (directory ++ [name]) node).find? (directory ++ [name]) = some node :=
        find?_put_self (by simp) node
      exact .enter (within_put free node _ _ housed) looked here real (.stay _ _)
    | stop _ _ _ ends => cases ends
    | enter looked found solid more =>
      obtain ⟨vacant, left, led⟩ := ih _ more
      have within := within_put vacant.free node
      exact ⟨vacant, left, .enter (within _ _ housed) looked (within _ _ found) solid led⟩
    | through looked count found more =>
      obtain ⟨vacant, left, led⟩ := fewer _ (by omega) _ _ more
      have within := within_put vacant.free node
      exact ⟨vacant, left, count ▸ .through (within _ _ housed) looked (within _ _ found) led⟩

/-! ### Files that are written -/

/-- A place at which a file can be written: nothing stands there but perhaps a file. -/
def Writable (t : Tree) (gap : Place) : Prop :=
  ∀ node, t.find? gap = some node → ∃ content, node = .file content

theorem Writable.no_directory (writable : t.Writable gap) : t.find? gap ≠ some .directory := by
  intro housed
  obtain ⟨_, file⟩ := writable _ housed
  cases file

theorem Writable.no_link (writable : t.Writable gap) (target : Path) :
    t.find? gap ≠ some (.link target) := by
  intro link
  obtain ⟨_, file⟩ := writable _ link
  cases file

theorem Writable.ne_nil (writable : t.Writable gap) : gap ≠ [] := by
  rintro rfl
  exact writable.no_directory rfl

theorem Writable.put (writable : t.Writable gap) (content : Content) :
    (t.put gap (.file content)).Writable gap := by
  intro node found
  rw [find?_put_self writable.ne_nil] at found
  exact ⟨content, (Option.some.inj found).symm⟩

/-- Writing a file leaves all ways as they are: none leads through a file. -/
theorem Leads.written (led : t.Leads links here steps left place) (writable : t.Writable gap)
    (content : Content) : (t.put gap (.file content)).Leads links here steps left place := by
  have kept : ∀ {other node}, t.find? other = some node → (∀ old, node ≠ .file old) →
      (t.put gap (.file content)).find? other = some node := by
    intro other node found no_file
    have apart : other ≠ gap := by
      rintro rfl
      obtain ⟨old, file⟩ := writable node found
      exact no_file old file
    rw [find?_put_ne apart]
    exact found
  induction led with
  | stay => exact .stay _ _
  | here housed _ ih => exact .here (kept housed (by simp)) ih
  | up housed _ ih => exact .up (kept housed (by simp)) ih
  | enter housed looked found real _ ih =>
    rename_i before _ _ name _ _
    by_cases same : before ++ [name] = gap
    · have file : (t.put gap (.file content)).find? (before ++ [name]) = some (.file content) := by
        rw [same]
        exact find?_put_self writable.ne_nil (.file content)
      exact .enter (kept housed (by simp)) looked file (by simp) ih
    · exact .enter (kept housed (by simp)) looked ((find?_put_ne same _).trans found) real ih
  | through housed looked found _ ih =>
    exact .through (kept housed (by simp)) looked (kept found (by simp)) ih

end Tree

/-- A path of which no step is left begins at the root. -/
private theorem isAbsolute_of_stepsOf_eq_nil {p : Path} (filled : p.bytes ≠ [])
    (none : stepsOf p = []) : p.isAbsolute = true := by
  unfold stepsOf at none
  cases bytes : p.bytes with
  | nil => exact absurd bytes filled
  | cons b rest =>
    by_cases slashed : b = slash
    · simp [Path.isAbsolute, bytes, slashed]
    · rw [bytes, Text.split, if_neg slashed] at none
      cases cut : Text.split slash rest with
      | nil => simp [cut] at none
      | cons piece pieces => simp [cut] at none

namespace Disk

variable {d d' d'' : Disk} {p q : Path} {place directory : Place} {name : Name}

/-! ### Where paths lead -/

theorem exists_leads_of_locate (located : d.locate p = .ok place) :
    Fits p ∧ ∃ left, d.tree.Leads maxLinks (d.start p) (lookupSteps p) left place := by
  have walked := walk_of_locate located
  have fits := fits_of_walkSteps walked
  rw [walk, walkSteps_of_fits fits] at walked
  exact ⟨fits, Tree.leads_of_walk walked⟩

theorem locate_of_leads {left : Nat} (fits : Fits p)
    (led : d.tree.Leads maxLinks (d.start p) (lookupSteps p) left place) :
    d.locate p = .ok place := by
  rw [locate, walk, walkSteps_of_fits fits, led.walk_true]

/-- A path leads to the same place where the same things and more are found. -/
theorem locate_mono (cwd : d'.cwd = d.cwd) (within : Tree.Within d.tree d'.tree)
    (located : d.locate p = .ok place) : d'.locate p = .ok place := by
  obtain ⟨fits, left, led⟩ := exists_leads_of_locate located
  exact locate_of_leads fits (start_of_cwd cwd p ▸ led.mono within)

theorem locate_written {gap : Place} (writable : d.tree.Writable gap) (content : Content)
    (located : d.locate p = .ok place) : (d.put gap (.file content)).locate p = .ok place := by
  obtain ⟨fits, left, led⟩ := exists_leads_of_locate located
  exact locate_of_leads fits (led.written writable content)

/-! ### Writing -/

/-- Where a file is written: at a place to which the path leads from then on. -/
structure WritesAt (d : Disk) (p : Path) (place : Place) : Prop where
  spellable : isSpellable p = true
  writable : d.tree.Writable place
  located : ∀ content, (d.put place (.file content)).locate p = .ok place

/-- The walk of a path begins in a directory. -/
private theorem start_housed {left : Nat} (fits : Fits p)
    (led : d.tree.Leads maxLinks (d.start p) (stepsOf p) left place) :
    d.tree.find? (d.start p) = some .directory := by
  cases steps : stepsOf p with
  | nil =>
    rw [Disk.start, if_pos (isAbsolute_of_stepsOf_eq_nil fits.filled steps)]
    rfl
  | cons name rest =>
    rw [steps] at led
    cases led <;> assumption

/-- A file can be written at the end of a path, unless a directory stands there. -/
private theorem writable_of_leads {left : Nat} (housing : d.tree.Housed) (fits : Fits p)
    (led : d.tree.Leads maxLinks (d.start p) (stepsOf p) left place)
    (no_directory : d.tree.find? place ≠ some .directory) : d.tree.Writable place := by
  obtain ⟨node, found, real⟩ := led.arrives housing ⟨.directory, start_housed fits led, by simp⟩
  intro node' found'
  rw [found] at found'
  obtain rfl := Option.some.inj found'
  cases node with
  | file content => exact ⟨content, rfl⟩
  | directory => exact absurd found no_directory
  | link target => exact absurd rfl (real target)

private theorem writesAt_of_openToWrite (housing : d.tree.Housed)
    (opened : d.openToWrite p = .ok place) : d.WritesAt p place := by
  unfold openToWrite at opened
  split at opened
  swap
  · cases opened
  rename_i spellable
  split at opened
  · cases opened
  · rename_i directory name walked
    split at opened
    · cases opened
    rename_i unslashed
    obtain rfl := Except.ok.inj opened
    have fits := fits_of_walkSteps walked
    rw [walkSteps_of_fits fits] at walked
    have lookup : lookupSteps p = stepsOf p := if_neg unslashed
    have file_real : ∀ content target, Node.file content ≠ .link target := by simp
    have vacant := (Tree.leads_of_vacant walked (file_real Content.empty)).1
    refine ⟨spellable, fun node found => ?_, fun content => ?_⟩
    · rw [vacant.free] at found
      cases found
    · obtain ⟨_, left, led⟩ := Tree.leads_of_vacant walked (file_real content)
      exact locate_of_leads fits (lookup ▸ led)
  · rename_i goal walked
    split at opened
    · cases opened
    rename_i plain
    split at opened
    · cases opened
    obtain rfl := Except.ok.inj opened
    simp only [Bool.or_eq_true, beq_iff_eq, not_or] at plain
    have fits := fits_of_walkSteps walked
    rw [walkSteps_of_fits fits] at walked
    obtain ⟨left, led⟩ := Tree.leads_of_walk walked
    have lookup : lookupSteps p = stepsOf p := if_neg plain.1
    have writable := writable_of_leads housing fits led plain.2
    exact ⟨spellable, writable, fun content =>
      locate_of_leads fits (lookup ▸ led.written writable content)⟩

/-- What a copy leaves: the destination holds what the source held, unless the two are one file,
which is then empty. -/
structure Copied (d d' : Disk) (source destination : Path) (place target : Place)
    (content : Content) : Prop where
  cwd : d'.cwd = d.cwd
  read : d.locate source = .ok place ∧ d.tree.find? place = some (.file content)
  spellable : isSpellable source = true ∧ isSpellable destination = true
  located : ∀ p place, d.locate p = .ok place → d'.locate p = .ok place
  written : d'.locate destination = .ok target
  found : d'.tree.find? target =
    some (.file (if target = place then Content.empty else content))
  others : ∀ other, other ≠ target → d'.tree.find? other = d.tree.find? other

theorem copied_of_copy {source destination : Path} (housing : d.tree.Housed)
    (done : d.copy source destination = .ok d') :
    ∃ place target content, Copied d d' source destination place target content := by
  unfold copy at done
  split at done
  · cases done
  rename_i place opened
  obtain ⟨spellable, located⟩ := openToRead_eq_ok.1 opened
  split at done
  swap
  · cases done
  rename_i content found
  split at done
  · cases done
  rename_i target opened'
  have writes := writesAt_of_openToWrite housing opened'
  have root := writes.writable.ne_nil
  have again := writes.writable.put Content.empty
  dsimp only at done
  split at done
  swap
  · cases done
  rename_i content' read
  obtain rfl := Except.ok.inj done
  rw [contentAt_eq_ok] at read
  have reread : content' = if target = place then Content.empty else content := by
    split
    · rename_i same
      subst same
      rw [put, withTree, Tree.find?_put_self root] at read
      exact (Node.file.inj (Option.some.inj read)).symm
    · rename_i apart
      rw [put, withTree, Tree.find?_put_ne (Ne.symm apart), found] at read
      exact (Node.file.inj (Option.some.inj read)).symm
  refine ⟨place, target, content, rfl, ⟨located, found⟩, ⟨spellable, writes.spellable⟩, ?_, ?_, ?_,
    ?_⟩
  · intro p goal led
    exact locate_written again content' (locate_written writes.writable Content.empty led)
  · exact locate_written again content' (writes.located Content.empty)
  · rw [← reread]
    exact Tree.find?_put_self root _
  · intro other apart
    exact (Tree.find?_put_ne apart _).trans (Tree.find?_put_ne apart _)

/-! ### Making directories -/

/-- Nothing but directories at the end of some paths has come to a disk. -/
structure Grown (way : Path → Prop) (d d' : Disk) : Prop where
  cwd : d'.cwd = d.cwd
  pinned : d'.pinned = d.pinned
  kept : Tree.Within d.tree d'.tree
  made : ∀ place, d.tree.find? place = none → d'.tree.find? place = none ∨
    d'.tree.find? place = some .directory ∧ ∃ p, way p ∧ d'.locate p = .ok place
  housing : d.tree.Housed → d'.tree.Housed

namespace Grown

variable {way : Path → Prop}

theorem refl (way : Path → Prop) (d : Disk) : Grown way d d where
  cwd := rfl
  pinned := rfl
  kept _ _ found := found
  made _ none := .inl none
  housing housing := housing

theorem trans (first : Grown way d d') (second : Grown way d' d'') : Grown way d d'' where
  cwd := second.cwd.trans first.cwd
  pinned := second.pinned.trans first.pinned
  kept place node found := second.kept place node (first.kept place node found)
  made place none := by
    rcases first.made place none with none | ⟨directory, p, along, located⟩
    · exact second.made place none
    · exact .inr ⟨second.kept _ _ directory, p, along, locate_mono second.cwd second.kept located⟩
  housing housing := second.housing (first.housing housing)

theorem congr (grown : Grown way d d') (cwd : d''.cwd = d'.cwd) (pinned : d''.pinned = d'.pinned)
    (same : ∀ place, d''.tree.find? place = d'.tree.find? place) : Grown way d d'' where
  cwd := cwd.trans grown.cwd
  pinned := pinned.trans grown.pinned
  kept place node found := (same place).trans (grown.kept place node found)
  made place none := by
    rcases grown.made place none with none | ⟨directory, p, along, located⟩
    · exact .inl ((same place).trans none)
    · exact .inr ⟨(same place).trans directory, p, along,
        locate_mono cwd (fun other node found => (same other).trans found) located⟩
  housing housing front last there := by
    rw [same] at there ⊢
    exact grown.housing housing front last there

end Grown

/-- A directory is made at a free place, to which its path leads from then on. -/
theorem opens_of_makeDirectory (made : d.makeDirectory p = .ok d') : ∃ directory name left,
    d.tree.Vacant directory name ∧ d' = d.put (directory ++ [name]) .directory ∧
      d'.Opens p left (directory ++ [name]) := by
  unfold makeDirectory at made
  split at made
  swap
  · cases made
  split at made
  · cases made
  · cases made
  rename_i directory name walked
  obtain rfl := Except.ok.inj made
  have fits := fits_of_walkSteps walked
  rw [walkSteps_of_fits fits] at walked
  have real : ∀ target, Node.directory ≠ .link target := by simp
  obtain ⟨vacant, left, led⟩ := Tree.leads_of_vacant walked real
  exact ⟨directory, name, left, vacant, rfl, fits, led, Tree.find?_put_self (by simp) _⟩

theorem grown_of_makeDirectory {way : Path → Prop} (along : way p)
    (made : d.makeDirectory p = .ok d') : Grown way d d' := by
  obtain ⟨directory, name, left, vacant, rfl, opens⟩ := opens_of_makeDirectory made
  refine ⟨rfl, rfl, Tree.within_put vacant.free _, fun place none => ?_, fun housing =>
    vacant.housing housing _⟩
  by_cases same : place = directory ++ [name]
  · exact .inr ⟨same ▸ opens.housed, p, along, same ▸ opens.locate⟩
  · exact .inl ((Tree.find?_put_ne same _).trans none)

/-- A path is above another one or that path itself. -/
inductive Above (p : Path) : Path → Prop
  | self : Above p p
  | parent {q r : Path} (above : Above p q) (parent : q.parent? = some r) : Above p r

private theorem above_of_mem_ancestors (bound : Nat) (above : Above p q) :
    ∀ r ∈ ancestors bound q, Above p r := by
  induction bound generalizing q with
  | zero => exact fun r mem => absurd mem List.not_mem_nil
  | succ bound ih =>
    intro r mem
    rw [ancestors] at mem
    rcases List.mem_cons.1 mem with rfl | mem
    · exact above
    · cases parent : q.parent? with
      | none =>
        rw [parent] at mem
        exact absurd mem List.not_mem_nil
      | some up =>
        rw [parent] at mem
        exact ih (above.parent parent) r mem

private theorem grown_climb (d : Disk) {way : Path → Prop} {paths missing : List Path}
    (along : ∀ p ∈ paths, way p) (along' : ∀ p ∈ missing, way p) :
    Grown way d (d.climb paths missing).2 ∧
      ∀ left, (d.climb paths missing).1 = .ok left → ∀ p ∈ left, way p := by
  induction paths generalizing missing with
  | nil =>
    refine ⟨.refl way d, fun left eq => ?_⟩
    rw [← Except.ok.inj eq]
    exact along'
  | cons p rest ih =>
    have unchanged : Grown way d d ∧
        ∀ left, (Except.ok missing : Except Fault (List Path)) = .ok left → ∀ q ∈ left, way q :=
      ⟨.refl way d, fun left eq => Except.ok.inj eq ▸ along'⟩
    unfold climb
    split
    · exact unchanged
    split
    · rename_i d' made
      exact ⟨grown_of_makeDirectory (along p List.mem_cons_self) made, unchanged.2⟩
    split
    · refine ih (fun q mem => along q (List.mem_cons_of_mem _ mem)) fun q mem => ?_
      rcases List.mem_cons.1 mem with rfl | mem
      · exact along q List.mem_cons_self
      · exact along' q mem
    split
    · exact unchanged
    · exact ⟨.refl way d, fun left eq => by cases eq⟩

theorem grown_makeEach {way : Path → Prop} {paths : List Path} (along : ∀ p ∈ paths, way p) :
    Grown way d (d.makeEach paths).2 := by
  induction paths generalizing d with
  | nil => exact .refl way d
  | cons p rest ih =>
    have along' : ∀ q ∈ rest, way q := fun q mem => along q (List.mem_cons_of_mem _ mem)
    unfold makeEach
    split
    · rename_i d' made
      exact (grown_of_makeDirectory (along p List.mem_cons_self) made).trans (ih along')
    split
    · exact ih along'
    · exact .refl way d

/-- Making directories, whether all of them or not, adds directories at the end of the path and of
the paths above it, and changes nothing else. -/
theorem grown_makeDirectories (d : Disk) (p : Path) :
    Grown (Above p) d (d.makeDirectories p).2 := by
  have above : ∀ q ∈ ancestors (p.bytes.length + 1) p, Above p q :=
    above_of_mem_ancestors _ .self
  have none : ∀ q ∈ ([] : List Path), Above p q := fun q mem => absurd mem List.not_mem_nil
  obtain ⟨grown, along⟩ := grown_climb d above none
  unfold makeDirectories
  split
  · rename_i missing d' climbed
    rw [climbed] at grown along
    exact grown.trans (grown_makeEach (along missing rfl))
  · rename_i fault d' climbed
    rw [climbed] at grown
    exact grown

end Disk

end ModBench.Files
