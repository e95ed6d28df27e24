import ModBench.Files.Write
import ModBench.Proofs.Files.Steps

/-!
Directories that paths open, and names that are not in use.  What stands in a directory is found at
the path of the directory with a name behind it.  A file of an unused name changes no walk.
-/

set_option autoImplicit false
set_option relaxedAutoImplicit false

namespace ModBench.Files

/-! ### Directories at the end of a path -/

namespace Disk

variable {d d' : Disk} {p base : Path} {left : Nat} {place : Place} {name : Name}

/-- Where the walk of a path begins. -/
def start (d : Disk) (p : Path) : Place :=
  if p.isAbsolute then [] else d.cwd

theorem start_of_cwd (cwd : d'.cwd = d.cwd) (p : Path) : d'.start p = d.start p := by
  rw [start, start, cwd]

theorem start_of_isAbsolute (absolute : p.isAbsolute = base.isAbsolute) :
    d.start p = d.start base := by
  rw [start, start, absolute]

/-- A path that can be walked at all. -/
structure Fits (p : Path) : Prop where
  filled : p.bytes ≠ []
  short : p.bytes.length < maxPathLength

theorem walkSteps_of_fits (fits : Fits p) (d : Disk) (follow : Bool) (steps : List Name) :
    d.walkSteps follow p steps = d.tree.walk follow maxLinks (d.start p) steps := by
  rw [walkSteps, if_neg (by simp [fits.filled]), if_neg (Nat.not_le.2 fits.short)]
  rfl

theorem fits_of_walkSteps {follow : Bool} {steps : List Name} {landing : Landing}
    (walked : d.walkSteps follow p steps = .ok landing) : Fits p := by
  unfold walkSteps at walked
  split at walked
  · cases walked
  rename_i filled
  split at walked
  · cases walked
  rename_i short
  exact ⟨by simpa using filled, Nat.not_le.1 short⟩

/-- A path leads to a directory; so many links may still be followed from there. -/
structure Opens (d : Disk) (p : Path) (left : Nat) (place : Place) : Prop where
  fits : Fits p
  led : d.tree.Leads maxLinks (d.start p) (stepsOf p) left place
  housed : d.tree.find? place = some .directory

/-- A path with a dot behind it is walked to the directory that it opens. -/
theorem walkSteps_dot_iff : d.walkSteps true p (stepsOf p ++ [dotName]) = .ok (.node place) ↔
    ∃ left, d.Opens p left place := by
  constructor
  · intro walked
    have fits := fits_of_walkSteps walked
    rw [walkSteps_of_fits fits] at walked
    obtain ⟨left, led⟩ := Tree.leads_of_walk walked
    obtain ⟨between, goal, first, second⟩ := led.split rfl
    cases second with
    | here housed more =>
      cases more
      exact ⟨_, fits, first, housed⟩
    | enter _ looked => exact absurd rfl looked.here
    | through _ looked => exact absurd rfl looked.here
  · rintro ⟨left, fits, led, housed⟩
    rw [walkSteps_of_fits fits, led.walk_append true (by simp), Tree.walk_dot, if_pos housed]

/-- A directory that a path opens is located at the end of the path. -/
theorem Opens.locate (opens : d.Opens p left place) : d.locate p = .ok place := by
  have walked : d.walk true p = .ok (.node place) := by
    unfold walk lookupSteps
    split
    · exact walkSteps_dot_iff.2 ⟨left, opens⟩
    · rw [walkSteps_of_fits opens.fits]
      exact opens.led.walk_true
  rw [Disk.locate, walked]

theorem walk_of_locate (located : d.locate p = .ok place) : d.walk true p = .ok (.node place) := by
  unfold locate at located
  split at located
  · rename_i walked
    rw [walked, Except.ok.inj located]
  · cases located
  · cases located

/-- A directory located at the end of a path is opened by the path. -/
theorem opens_of_locate (located : d.locate p = .ok place)
    (housed : d.tree.find? place = some .directory) : ∃ left, d.Opens p left place := by
  have walked := walk_of_locate located
  unfold walk lookupSteps at walked
  split at walked
  · exact walkSteps_dot_iff.1 walked
  · have fits := fits_of_walkSteps walked
    rw [walkSteps_of_fits fits] at walked
    obtain ⟨left, led⟩ := Tree.leads_of_walk walked
    exact ⟨left, fits, led, housed⟩

/-- A path opens the same directory where the same things and more are found. -/
theorem Opens.mono (opens : d.Opens p left place) (cwd : d'.cwd = d.cwd)
    (within : Tree.Within d.tree d'.tree) : d'.Opens p left place where
  fits := opens.fits
  led := by
    rw [start_of_cwd cwd]
    exact opens.led.mono within
  housed := within _ _ opens.housed

/-- The disk without what stands at a place and below it. -/
def withoutAll (d : Disk) (place : Place) : Disk :=
  d.withTree (d.tree.deleteAll place)

/-- The disk without what stands at a place, unless that is a directory or cannot be taken away. -/
def withoutFile (d : Disk) (place : Place) : Disk :=
  if d.tree.find? place = some .directory ∨ place ∈ d.pinned then d else d.withoutAll place

theorem cwd_withoutFile (d : Disk) (gap : Place) : (d.withoutFile gap).cwd = d.cwd := by
  unfold withoutFile
  split <;> rfl

theorem find?_of_withoutAll {gap here : Place} {node : Node} (root : gap ≠ [])
    (found : (d.withoutAll gap).tree.find? here = some node) :
    d.tree.find? here = some node ∧ ¬ gap <+: here := by
  have outside : ¬ gap <+: here := by
    intro inside
    have none : (d.withoutAll gap).tree.find? here = none :=
      Tree.find?_deleteAll_of_below root inside
    rw [none] at found
    cases found
  exact ⟨(Tree.find?_deleteAll_of_not_below outside).symm.trans found, outside⟩

theorem find?_of_withoutFile {gap here : Place} {node : Node} (root : gap ≠ [])
    (found : (d.withoutFile gap).tree.find? here = some node) :
    d.tree.find? here = some node ∧
      (gap <+: here → d.tree.find? gap = some .directory ∨ gap ∈ d.pinned) := by
  unfold withoutFile at found
  split at found
  · rename_i stays
    exact ⟨found, fun _ => stays⟩
  · obtain ⟨there, outside⟩ := find?_of_withoutAll root found
    exact ⟨there, fun inside => absurd inside outside⟩

/-- A path that opens a directory does not need a place that another disk lacks on which the path
can be walked too. -/
theorem Opens.avoid (opens : d.Opens p left place) {left' : Nat} {gap goal : Place}
    (other : d'.tree.Leads maxLinks (d'.start p) (stepsOf p) left' goal) (cwd : d'.cwd = d.cwd)
    (gone : ∀ rest, d'.tree.find? (gap ++ rest) = none)
    (kept : ∀ here, ¬ gap <+: here → d.tree.find? here ≠ none →
      d'.tree.find? here = d.tree.find? here) (outside : ¬ gap <+: place) :
    (d.withoutAll gap).Opens p left place where
  fits := opens.fits
  led := by
    rw [start_of_cwd cwd] at other
    exact opens.led.avoid other gone kept
  housed := (Tree.find?_deleteAll_of_not_below outside).trans opens.housed

/-- The walk of a name in a directory, if its path is not too long. -/
theorem Opens.walk_entry (opens : d.Opens base left place) (fits : Fits p)
    (absolute : p.isAbsolute = base.isAbsolute) (dots : List Name)
    (idle : ∀ dot ∈ dots, dot = dotName) {steps : List Name} (more : steps ≠ [])
    (eq : stepsOf p = stepsOf base ++ (dots ++ steps)) (follow : Bool) :
    d.walkSteps follow p (stepsOf p) = d.tree.walk follow left place steps := by
  rw [walkSteps_of_fits fits, start_of_isAbsolute absolute, eq,
    opens.led.walk_append follow (by simp [more]),
    Tree.walk_dots idle opens.housed more]

end Disk

/-! ### Names that are not in use -/

namespace Tree

/-- No place has the name in it, and no link mentions it. -/
structure Unused (t : Tree) (name : Name) : Prop where
  places : ∀ e ∈ t, name ∉ e.1
  links : ∀ place target, (place, Node.link target) ∈ t → name ∉ lookupSteps target

variable {t : Tree} {name : Name} {directory here place : Place} {steps : List Name}

namespace Unused

variable (unused : t.Unused name)
include unused

theorem not_mem_of_find? (there : t.find? place ≠ none) : name ∉ place := by
  by_cases root : place = []
  · simp [root]
  · obtain ⟨node, found⟩ := Option.ne_none_iff_exists'.1 there
    exact unused.places _ (mem_of_find? root found)

theorem new (directory : Place) : ∀ e ∈ t, e.1 ≠ directory ++ [name] := by
  rintro e mem eq
  exact unused.places e mem (by simp [eq])

theorem find?_new (directory : Place) : t.find? (directory ++ [name]) = none :=
  (find?_eq_none_iff (by simp)).2 (unused.new directory)

omit unused in
theorem find?_put (directory : Place) (node : Node) (h : name ∉ place) :
    (t.put (directory ++ [name]) node).find? place = t.find? place := by
  refine find?_put_ne ?_ node
  rintro rfl
  simp at h

/-- A walk that does not mention the name ends at a place without it. -/
private theorem not_mem_of_walk {follow : Bool} {links : Nat} (apart : name ∉ here)
    (unmentioned : name ∉ steps) (walked : t.walk follow links here steps = .ok (.node place)) :
    name ∉ place := by
  induction links, here, steps using walk_induction with
  | nil links here =>
    rw [walk_nil] at walked
    obtain rfl := Landing.node.inj (Except.ok.inj walked)
    exact apart
  | cons links here step rest ih fewer =>
    rw [List.mem_cons, not_or] at unmentioned
    have entered : name ∉ here ++ [step] := by
      simp [apart, unmentioned.1]
    obtain ⟨_, taken⟩ := taken_of_walk walked
    cases taken with
    | here _ more => exact ih _ apart unmentioned.2 more
    | up _ more => exact ih _ (fun mem => apart (List.dropLast_subset here mem)) unmentioned.2 more
    | vacant _ _ ends => cases ends
    | stop _ _ _ ends =>
      obtain rfl := Landing.node.inj ends
      exact entered
    | enter _ _ _ more => exact ih _ entered unmentioned.2 more
    | through _ count found more =>
      have mentioned := unused.links _ _ (mem_of_find? (by simp) found)
      refine fewer _ (by omega) _ _ ?_ ?_ more
      · split
        · simp
        · exact apart
      · simp [mentioned, unmentioned.2]

/-- A walk that does not mention the name is not changed by what is put at it. -/
private theorem walk_put (directory : Place) (node : Node) (follow : Bool) {links : Nat}
    (apart : name ∉ here) (unmentioned : name ∉ steps) :
    (t.put (directory ++ [name]) node).walk follow links here steps =
      t.walk follow links here steps := by
  induction links, here, steps using walk_induction with
  | nil links here => rw [walk_nil, walk_nil]
  | cons links here step rest ih fewer =>
    rw [List.mem_cons, not_or] at unmentioned
    have entered : name ∉ here ++ [step] := by
      simp [apart, unmentioned.1]
    have up : name ∉ here.dropLast := fun mem => apart (List.dropLast_subset here mem)
    rw [walk_cons, walk_cons, find?_put directory node apart,
      find?_put directory node entered, ih _ apart unmentioned.2, ih _ up unmentioned.2,
      ih _ entered unmentioned.2]
    cases found : t.find? (here ++ [step]) with
    | none => rfl
    | some node =>
      cases node with
      | file => rfl
      | directory => rfl
      | link target =>
        cases links with
        | zero => rfl
        | succ links =>
          have mentioned := unused.links _ _ (mem_of_find? (by simp) found)
          dsimp only
          rw [fewer links (Nat.lt_succ_self links)]
          · split
            · simp
            · exact apart
          · simp [mentioned, unmentioned.2]

end Unused

end Tree

namespace Disk

variable {d : Disk} {p : Path} {name : Name} {place : Place} {steps : List Name}

theorem walkSteps_put (unused : d.tree.Unused name) (directory : Place) (node : Node)
    (follow : Bool) (start : name ∉ d.start p) (unmentioned : name ∉ steps) :
    (d.put (directory ++ [name]) node).walkSteps follow p steps = d.walkSteps follow p steps := by
  unfold walkSteps
  split
  · rfl
  split
  · rfl
  · exact unused.walk_put directory node follow start unmentioned

theorem locate_put (unused : d.tree.Unused name) (directory : Place) (node : Node)
    (start : name ∉ d.start p) (unmentioned : name ∉ lookupSteps p) :
    (d.put (directory ++ [name]) node).locate p = d.locate p := by
  unfold locate walk
  rw [walkSteps_put unused directory node true start unmentioned]

theorem openToRead_eq_ok : d.openToRead p = .ok place ↔
    isSpellable p = true ∧ d.locate p = .ok place := by
  unfold openToRead
  by_cases spellable : isSpellable p = true
  · rw [if_pos spellable]
    cases located : d.locate p <;> simp [spellable]
  · rw [if_neg spellable]
    simp [spellable]

theorem contentAt_eq_ok {content : Content} : d.contentAt place = .ok content ↔
    d.tree.find? place = some (.file content) := by
  unfold contentAt
  split <;> simp_all

/-- What is read at a path stands at its end. -/
theorem read_eq_ok {content : Content} : d.read p = .ok content ↔
    isSpellable p = true ∧ ∃ place, d.locate p = .ok place ∧
      d.tree.find? place = some (.file content) := by
  unfold read
  split
  · rename_i place opened
    obtain ⟨spellable, located⟩ := openToRead_eq_ok.1 opened
    rw [contentAt_eq_ok]
    constructor
    · intro found
      exact ⟨spellable, place, located, found⟩
    · rintro ⟨_, other, located', found⟩
      rw [located] at located'
      rwa [Except.ok.inj located']
  · rename_i fault failed
    constructor
    · nofun
    · rintro ⟨spellable, place, located, _⟩
      rw [openToRead_eq_ok.2 ⟨spellable, located⟩] at failed
      cases failed

/-- What is read of a path that was opened stands at its end. -/
theorem status?_of_read {content : Content}
    (opened : d.openToRead p = .ok place) (read : d.contentAt place = .ok content) :
    d.status? p = some (.file content) := by
  obtain ⟨spellable, located⟩ := openToRead_eq_ok.1 opened
  rw [status?, if_pos spellable, located]
  exact contentAt_eq_ok.1 read

theorem not_mem_of_locate (unused : d.tree.Unused name) (start : name ∉ d.start p)
    (unmentioned : name ∉ lookupSteps p) (located : d.locate p = .ok place) : name ∉ place := by
  have walked := walk_of_locate located
  rw [walk, walkSteps_of_fits (fits_of_walkSteps walked)] at walked
  exact unused.not_mem_of_walk start unmentioned walked

end Disk

end ModBench.Files
