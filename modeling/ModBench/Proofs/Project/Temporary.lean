import ModBench.Proofs.Files.Opened
import ModBench.Proofs.Project.Below
import ModBench.Proofs.Project.Layout

/-!
The temporary file of an archive.  Its name is not in use anywhere, so that it changes nothing of
what is read for the archive.
-/

set_option autoImplicit false
set_option relaxedAutoImplicit false

namespace ModBench

open Files (Disk Tree Place Name Node dotName stepsOf lookupSteps)

namespace Package

/-! ### The fresh name -/

theorem length_freshName (d : Disk) (p : Path) :
    (freshName d p).length =
      4 + (p.bytes.length + writtenTotal d.tree + d.pinned.flatten.flatten.length) := by
  rw [freshName, List.length_append, List.length_replicate]
  rfl

private theorem writtenLength_le_total {t : Tree} {e : Place × Node} (mem : e ∈ t) :
    writtenLength e ≤ writtenTotal t := by
  unfold writtenTotal
  induction t with
  | nil => cases mem
  | cons first t ih =>
    rw [List.foldr_cons]
    rcases List.mem_cons.1 mem with rfl | mem
    · exact Nat.le_add_right _ _
    · exact Nat.le_trans (ih mem) (Nat.le_add_left _ _)

private theorem length_le_writtenLength {e : Place × Node} {name : Name} (mem : name ∈ e.1) :
    name.length ≤ writtenLength e := by
  have inside : name.length ≤ e.1.flatten.length := (List.sublist_flatten_of_mem mem).length_le
  obtain ⟨place, node⟩ := e
  cases node with
  | link target => exact Nat.le_trans inside (Nat.le_add_right _ _)
  | file => exact inside
  | directory => exact inside

theorem unused_freshName (d : Disk) (p : Path) : d.tree.Unused (freshName d p) where
  places := by
    intro e mem named
    have short := length_le_writtenLength named
    have total := writtenLength_le_total mem
    rw [length_freshName] at short
    omega
  links := by
    intro place target mem mentioned
    have total : place.flatten.length + target.bytes.length ≤ writtenTotal d.tree :=
      writtenLength_le_total mem
    have long := length_freshName d p
    rcases Files.mem_lookupSteps mentioned with step | dot
    · have short := Files.length_le_of_mem_stepsOf step
      omega
    · rw [dot, dotName] at long
      simp only [List.length_singleton] at long
      omega

/-- Nothing of such a name is kept where it is. -/
theorem freshName_not_pinned (d : Disk) (p : Path) (D : Place) :
    D ++ [freshName d p] ∉ d.pinned := by
  intro mem
  have inside : (freshName d p).length ≤ (D ++ [freshName d p]).flatten.length :=
    (List.sublist_flatten_of_mem (by simp)).length_le
  have among : (D ++ [freshName d p]).flatten.length ≤ d.pinned.flatten.flatten.length := by
    rw [List.flatten_flatten]
    exact (List.sublist_flatten_of_mem (List.mem_map_of_mem mem)).length_le
  have long := length_freshName d p
  omega

private theorem freshName_not_mem_stepsOf (d : Disk) (p : Path) : freshName d p ∉ stepsOf p := by
  intro mem
  have short := Files.length_le_of_mem_stepsOf mem
  have long := length_freshName d p
  omega

theorem freshName_ne_of_short {d : Disk} {p : Path} {name : Name} (short : name.length < 4) :
    name ≠ freshName d p := by
  intro eq
  have long := length_freshName d p
  rw [← eq] at long
  omega

/-! ### Paths below a folder -/

variable {base : Path}

/-- Names put behind a path one by one are its last steps. -/
theorem pathBelow_steps {names : List Name} (named : ∀ name ∈ names, Tree.IsName name)
    (filled : base.bytes ≠ []) :
    stepsOf (pathBelow base names) = stepsOf base ++ names ∧
      (pathBelow base names).isAbsolute = base.isAbsolute ∧
      (Files.endsInSlash base = false → Files.endsInSlash (pathBelow base names) = false) := by
  induction names generalizing base with
  | nil => exact ⟨(List.append_nil _).symm, rfl, id⟩
  | cons name names ih =>
    have first := named name List.mem_cons_self
    have joined := Files.join_name_ne_nil first.slashless filled
    obtain ⟨steps, absolute, unslashed⟩ :=
      ih (fun n mem => named n (List.mem_cons_of_mem _ mem)) joined
    refine ⟨?_, ?_, fun _ => ?_⟩
    · show stepsOf (pathBelow (base.entry name) names) = _
      rw [steps, Files.stepsOf_join_name first.slashless first.filled filled, List.append_assoc]
      rfl
    · show (pathBelow (base.entry name) names).isAbsolute = _
      rw [absolute, Files.isAbsolute_join_name first.slashless filled]
    · exact unslashed (Files.endsInSlash_join_name first.slashless first.filled filled)

/-! ### The folder for the game's folder -/

variable {d : Disk} {l : ModLayout} {left : Nat} {place D : Place} {name : Name} {node : Node}

private theorem looked_r6 : Tree.Looked (Text.encodeString ModLayout.r6Name) where
  here := by decide
  up := by decide
  short := by decide

/-- The folder is an entry of the mod's directory. -/
theorem walk_r6 (coherent : l.Coherent) (opens : d.Opens l.modDir left D)
    (fits : Disk.Fits l.r6Dir) :
    d.walk false l.r6Dir =
      if d.tree.find? (D ++ [Text.encodeString ModLayout.r6Name]) = none then
        .ok (.vacant D (Text.encodeString ModLayout.r6Name))
      else .ok (.node (D ++ [Text.encodeString ModLayout.r6Name])) := by
  obtain ⟨dots, idle, steps⟩ := coherent.steps
  have spelled : lookupSteps l.r6Dir = stepsOf l.r6Dir := by
    rw [lookupSteps, coherent.unslashed]
    rfl
  rw [Disk.walk, spelled, opens.walk_entry fits coherent.absolute dots idle (by simp) steps false,
    Tree.walk_last opens.housed looked_r6]

/-! ### What is read -/

private theorem children_put_of_ne (new : ∀ e ∈ d.tree, e.1 ≠ D ++ [name]) (apart : place ≠ D) :
    (d.put (D ++ [name]) node).tree.children place = d.tree.children place := by
  have grown : (d.put (D ++ [name]) node).tree = d.tree ++ [(D ++ [name], node)] :=
    Tree.put_of_new (by simp) new node
  have outside : Tree.nameIn? place (D ++ [name], node) = none := by
    rw [Option.eq_none_iff_forall_ne_some]
    intro child found
    have eq := (Prod.mk.inj (Tree.nameIn?_eq_some_iff.1 found)).1
    exact apart (List.append_inj' eq rfl).1.symm
  rw [Tree.children, grown, List.filterMap_append]
  simp [outside, Tree.children]

/-- What is put into a directory is not found below a place that this directory is not below. -/
private theorem below_put (new : ∀ e ∈ d.tree, e.1 ≠ D ++ [name]) (apart : ¬ place <+: D)
    (depth : Nat) :
    below (d.put (D ++ [name]) node).tree depth place = below d.tree depth place := by
  induction depth generalizing place with
  | zero => rfl
  | succ depth ih =>
    have inside : ∀ step : Name, ¬ place ++ [step] <+: D := fun step h =>
      apart ((List.prefix_append place [step]).trans h)
    rw [below, below, children_put_of_ne new (fun eq => apart (eq ▸ List.prefix_rfl))]
    simp only [ih (inside _)]

private theorem height_put (new : ∀ e ∈ d.tree, e.1 ≠ D ++ [name]) :
    d.tree.height ≤ (d.put (D ++ [name]) node).tree.height := by
  rw [Tree.height_le_iff]
  intro e mem
  have grown : (d.put (D ++ [name]) node).tree = d.tree ++ [(D ++ [name], node)] :=
    Tree.put_of_new (by simp) new node
  exact Tree.length_le_height (grown ▸ List.mem_append_left _ mem)

/-- A name that is in use neither in the tree nor on the way to the mod. -/
structure Apart (d : Disk) (l : ModLayout) (name : Name) : Prop where
  unused : d.tree.Unused name
  start : name ∉ d.start l.r6Dir
  steps : name ∉ lookupSteps l.r6Dir

theorem apart_freshName (coherent : l.Coherent) (opens : d.Opens l.modDir left D) :
    Apart d l (freshName d l.modDir) where
  unused := unused_freshName _ _
  start := by
    rw [Disk.start_of_isAbsolute coherent.absolute]
    refine (unused_freshName _ _).not_mem_of_find? ?_
    rw [opens.led.start_housed opens.housed]
    simp
  steps := by
    obtain ⟨dots, idle, steps⟩ := coherent.steps
    rw [lookupSteps, coherent.unslashed, if_neg (by simp), steps]
    simp only [List.mem_append, List.mem_singleton, not_or]
    refine ⟨freshName_not_mem_stepsOf _ _, fun mem => ?_, fun eq => ?_⟩
    · exact freshName_ne_of_short (by decide) (idle _ mem).symm
    · exact freshName_ne_of_short (by decide) eq.symm

private theorem search_put (coherent : l.Coherent) (opens : d.Opens l.modDir left D)
    (apart : Apart d l name) :
    search (d.put (D ++ [name]) node) l.r6Dir = search d l.r6Dir := by
  have new := apart.unused.new D
  have r6_free : name ∉ [Text.encodeString ModLayout.r6Name] := by
    obtain ⟨dots, _, steps⟩ := coherent.steps
    have unmentioned := apart.steps
    rw [lookupSteps, coherent.unslashed, if_neg (by simp), steps] at unmentioned
    intro mem
    exact unmentioned (by simp [List.mem_singleton.1 mem])
  have same : (d.put (D ++ [name]) node).walk false l.r6Dir = d.walk false l.r6Dir :=
    Disk.walkSteps_put apart.unused D node false apart.start apart.steps
  unfold search
  rw [same]
  cases walked : d.walk false l.r6Dir with
  | error fault => rfl
  | ok landing =>
    have fits := Disk.fits_of_walkSteps walked
    rw [walk_r6 coherent opens fits] at walked
    split at walked
    · obtain rfl := Except.ok.inj walked
      rfl
    · obtain rfl := Except.ok.inj walked
      have free : name ∉ D ++ [Text.encodeString ModLayout.r6Name] := by
        have outside := apart.unused.not_mem_of_find? (by rw [opens.housed]; simp)
        simp only [List.mem_append, not_or]
        exact ⟨outside, r6_free⟩
      have found :
          (d.put (D ++ [name]) node).tree.find? (D ++ [Text.encodeString ModLayout.r6Name]) =
            d.tree.find? (D ++ [Text.encodeString ModLayout.r6Name]) :=
        Tree.Unused.find?_put D node free
      have beyond := Tree.not_below_entry D (Text.encodeString ModLayout.r6Name)
      dsimp only
      rw [found, Disk.locate_put apart.unused D node apart.start apart.steps,
        below_put new beyond, below_of_height (height_put new)]

private theorem contentAt_put (free : name ∉ place) :
    (d.put (D ++ [name]) node).contentAt place = d.contentAt place := by
  have same : (d.put (D ++ [name]) node).tree.find? place = d.tree.find? place :=
    Tree.Unused.find?_put D node free
  unfold Disk.contentAt
  rw [same]

private theorem entryOf_put (coherent : l.Coherent) (apart : Apart d l name) {f : Found}
    (named : ∀ n ∈ f.names, Tree.IsName n) (free : name ∉ f.names) :
    entryOf (d.put (D ++ [name]) node) l f = entryOf d l f := by
  obtain ⟨steps, absolute, unslashed⟩ := pathBelow_steps named coherent.r6Dir_filled
  have start : name ∉ d.start (pathBelow l.r6Dir f.names) := by
    have begins := apart.start
    rwa [Disk.start, ← absolute] at begins
  have unmentioned : name ∉ lookupSteps (pathBelow l.r6Dir f.names) := by
    have above := apart.steps
    rw [lookupSteps, coherent.unslashed, if_neg (by simp)] at above
    rw [lookupSteps, unslashed coherent.unslashed, if_neg (by simp), steps]
    simp [above, free]
  have located := Disk.locate_put apart.unused D node start unmentioned
  have opened : (d.put (D ++ [name]) node).openToRead (pathBelow l.r6Dir f.names) =
      d.openToRead (pathBelow l.r6Dir f.names) := by
    unfold Disk.openToRead
    rw [located]
  unfold entryOf
  dsimp only
  rw [located, opened]
  cases reading : d.openToRead (pathBelow l.r6Dir f.names) with
  | error fault => rfl
  | ok place =>
    have outside := Disk.not_mem_of_locate apart.unused start unmentioned
      (Disk.openToRead_eq_ok.1 reading).2
    dsimp only
    rw [contentAt_put outside]

private theorem entriesOf_congr {d' : Disk} {found : List Found}
    (same : ∀ f ∈ found, entryOf d' l f = entryOf d l f) :
    entriesOf d' l found = entriesOf d l found := by
  induction found with
  | nil => rfl
  | cons f rest ih =>
    rw [entriesOf, entriesOf, same f List.mem_cons_self,
      ih fun g mem => same g (List.mem_cons_of_mem _ mem)]

private theorem names_of_search (order : d.tree.InOrder) {folder : Path} {found : List Found}
    (searched : search d folder = .ok found) {f : Found} (mem : f ∈ found) :
    f.names = [] ∨ ∃ place, d.tree.find? (place ++ f.names) = some f.node := by
  unfold search at searched
  split at searched
  · cases searched
  · cases searched
  · rename_i place _
    split at searched
    · obtain rfl := Except.ok.inj searched
      rcases List.mem_cons.1 mem with rfl | mem
      · exact Or.inl rfl
      · exact Or.inr ⟨place, ((mem_below order).1 mem).2.2⟩
    · split at searched
      · obtain rfl := Except.ok.inj searched
        obtain rfl := List.mem_singleton.1 mem
        exact Or.inl rfl
      · cases searched
    · obtain rfl := Except.ok.inj searched
      obtain rfl := List.mem_singleton.1 mem
      exact Or.inl rfl
    · cases searched

/-- A file of a name that is not in use changes nothing of what goes into the archive. -/
theorem entries_put (node : Node) (order : d.tree.InOrder) (coherent : l.Coherent)
    (opens : d.Opens l.modDir left D) (apart : Apart d l name) :
    entries (d.put (D ++ [name]) node) l = entries d l := by
  unfold entries
  rw [search_put coherent opens apart]
  cases searched : search d l.r6Dir with
  | error fault => rfl
  | ok found =>
    refine entriesOf_congr fun f mem => ?_
    rcases names_of_search order searched mem with none | ⟨place, there⟩
    · exact entryOf_put coherent apart (by simp [none]) (by simp [none])
    · have free := apart.unused.not_mem_of_find? (by rw [there]; simp)
      by_cases none : f.names = []
      · exact entryOf_put coherent apart (by simp [none]) (by simp [none])
      · have listed := Tree.mem_of_find? (by simp [none]) there
        refine entryOf_put coherent apart (fun n inside => ?_) (fun inside => ?_)
        · exact order.named _ listed n (List.mem_append_right place inside)
        · exact free (List.mem_append_right place inside)

end Package

end ModBench
