import ModBench.Proofs.Files.Reached

/-!
Directories that are made below one that is there.  Either none of them can be made, and the disk
is as it was, or all that are missing are made: below the last of them nothing stands.
-/

set_option autoImplicit false
set_option relaxedAutoImplicit false

namespace ModBench

namespace Files

namespace Disk

variable {d d' d'' : Disk} {base p q goal : Path} {left : Nat} {place : Place} {name : Name}
  {names : List Name} {missing : List Path}

/-! ### Single directories -/

theorem not_isDirectory_of_free (free : d.exists? p = false) : d.isDirectory p = false := by
  rw [exists?, Option.isSome_eq_false_iff, Option.isNone_iff_eq_none] at free
  rw [isDirectory, free]
  rfl

/-- A directory cannot be made because there is none for it. -/
def Wants (d : Disk) (p : Path) : Prop :=
  ∃ fault, d.makeDirectory p = .error fault ∧ fault.kind = .notFound

theorem length_of_not_fits (filled : p.bytes ≠ []) (long : ¬ Fits p) :
    maxPathLength ≤ p.bytes.length :=
  Nat.not_lt.1 fun short => long ⟨filled, short⟩

theorem walkSteps_of_long (filled : p.bytes ≠ []) (long : ¬ Fits p) (d : Disk) (follow : Bool)
    (steps : List Name) : d.walkSteps follow p steps = .error .nameTooLong := by
  rw [walkSteps, if_neg (by simpa using filled), if_pos (length_of_not_fits filled long)]

theorem write_of_long (spellable : isSpellable p = true) (filled : p.bytes ≠ [])
    (long : ¬ Fits p) (d : Disk) (data : List UInt8) :
    d.write p data = .error (.system .nameTooLong) := by
  rw [write, openToWrite, if_pos spellable, walkSteps_of_long filled long]

/-- A path at which a directory is wanted is not too long. -/
theorem Wants.fits (wants : d.Wants p) (filled : p.bytes ≠ []) : Fits p := by
  obtain ⟨fault, failed, kind⟩ := wants
  by_contra long
  rw [makeDirectory, walkSteps_of_long filled long] at failed
  split at failed <;>
    · obtain rfl := Except.error.inj failed
      cases kind

/-- Nothing is wanted in a directory that is there. -/
theorem Opens.not_wants (opens : d.Opens base left place) (usable : Usable name)
    (spellable : isSpellable base = true) : ¬ d.Wants (base.entry name) := by
  intro wants
  have fits := wants.fits (entry_filled usable _)
  obtain ⟨fault, failed, kind⟩ := wants
  rw [opens.reaches.makeDirectory_entry usable fits spellable] at failed
  split at failed
  · cases failed
  · obtain rfl := Except.error.inj failed
    cases kind

theorem opens_of_isDirectory (there : d.isDirectory p = true) :
    isSpellable p = true ∧ ∃ left place, d.Opens p left place := by
  unfold isDirectory status? at there
  split at there
  swap
  · cases there
  rename_i spellable
  split at there
  · rename_i place located
    obtain ⟨left, opens⟩ := opens_of_locate located (by simpa using there)
    exact ⟨spellable, left, place, opens⟩
  · cases there

theorem Opens.isDirectory (opens : d.Opens p left place) (spellable : isSpellable p = true) :
    d.isDirectory p = true := by
  rw [Disk.isDirectory, status?, if_pos spellable, opens.locate]
  simp [opens.housed]

/-- A directory is wanted only in one that is not there. -/
private theorem Wants.hidden (wants : d.Wants (base.entry name)) (usable : Usable name) :
    d.isDirectory base = false := by
  by_contra there
  obtain ⟨spellable, _, _, opens⟩ := opens_of_isDirectory (Bool.not_eq_false _ ▸ there)
  exact opens.not_wants usable spellable wants

/-! ### Climbing and going down again -/

/-- Climb some paths, and make the directories that were found missing. -/
def makeFrom (d : Disk) (paths missing : List Path) : Except Fault Unit × Disk :=
  match d.climb paths missing with
  | (.ok missing, d) => d.makeEach missing
  | (.error fault, d) => (.error fault, d)

theorem makeDirectories_eq (d : Disk) (p : Path) :
    d.makeDirectories p = d.makeFrom (ancestors (p.bytes.length + 1) p) [] := rfl

/-- Above such a path nothing is, and nothing is made for it. -/
def isTop (p : Path) : Bool :=
  p.components.isEmpty || p.parent?.isNone

theorem makeFrom_cons (d : Disk) (p : Path) (rest missing : List Path) :
    d.makeFrom (p :: rest) missing =
      if isTop p then d.makeEach missing
      else
        match d.makeDirectory p with
        | .ok d => d.makeEach missing
        | .error fault =>
          if fault.kind == .notFound then d.makeFrom rest (p :: missing)
          else if d.isThere p fault then d.makeEach missing
          else (.error fault, d) := by
  conv_lhs => rw [makeFrom, climb, ← isTop]
  by_cases top : isTop p = true
  · rw [if_pos top, if_pos top]
  rw [if_neg top, if_neg top]
  cases d.makeDirectory p with
  | ok d' => rfl
  | error fault =>
    dsimp only
    by_cases none : (fault.kind == .notFound) = true
    · rw [if_pos none, if_pos none]
      rfl
    rw [if_neg none, if_neg none]
    by_cases there : d.isThere p fault = true
    · rw [if_pos there, if_pos there]
    · rw [if_neg there, if_neg there]

/-- How a climb ends at a path or goes on from it. -/
inductive Climbed (d : Disk) (p : Path) (rest missing : List Path) :
    Except Fault Unit × Disk → Prop
  | top (top : isTop p = true) : Climbed d p rest missing (d.makeEach missing)
  | made {d' : Disk} (made : d.makeDirectory p = .ok d') :
    Climbed d p rest missing (d'.makeEach missing)
  | wants (low : isTop p = false) (wants : d.Wants p) :
    Climbed d p rest missing (d.makeFrom rest (p :: missing))
  | there (there : d.isDirectory p = true) : Climbed d p rest missing (d.makeEach missing)
  | refused {fault : Fault} (failed : d.makeDirectory p = .error fault)
    (kind : fault.kind ≠ .notFound) : Climbed d p rest missing (.error fault, d)

theorem climbed (d : Disk) (p : Path) (rest missing : List Path) :
    Climbed d p rest missing (d.makeFrom (p :: rest) missing) := by
  rw [makeFrom_cons]
  split
  · rename_i top
    exact .top top
  rename_i low
  cases made : d.makeDirectory p with
  | ok d' => exact .made made
  | error fault =>
    dsimp only
    split
    · rename_i none
      exact .wants (Bool.not_eq_true _ ▸ low) ⟨fault, made, by simpa using none⟩
    rename_i kind
    split
    · rename_i there
      exact .there (Bool.and_eq_true_iff.1 there).2
    · exact .refused made (by simpa using kind)

/-- Each path is an entry of the one before it. -/
inductive Ladder : Path → List Path → Path → Prop
  | stay (p : Path) : Ladder p [] p
  | enter {p goal : Path} {name : Name} {rest : List Path} (usable : Usable name)
    (more : Ladder (p.entry name) rest goal) : Ladder p (p.entry name :: rest) goal

/-- What stands at the end of a path is seen there where the same things and more are found. -/
theorem status?_mono (cwd : d'.cwd = d.cwd) (within : Tree.Within d.tree d'.tree)
    (there : d.exists? p = true) : d'.status? p = d.status? p := by
  obtain ⟨node, status⟩ := Option.isSome_iff_exists.1 there
  have seen := status
  unfold status? at seen
  split at seen
  swap
  · cases seen
  rename_i spellable
  split at seen
  swap
  · cases seen
  rename_i place located
  rw [status, status?, if_pos spellable, locate_mono cwd within located]
  exact within _ _ seen

/-- What is not there where the same things and more are found was not there before. -/
theorem not_exists_of_mono (cwd : d'.cwd = d.cwd) (within : Tree.Within d.tree d'.tree)
    (absent : d'.exists? p = false) : d.exists? p = false := by
  by_contra there
  have there : d.exists? p = true := Bool.not_eq_false _ ▸ there
  rw [exists?, status?_mono cwd within there, ← exists?, there] at absent
  cases absent

/-- A path opens a directory that was not there before and has nothing in it. -/
structure Fresh (d d' : Disk) (p : Path) (place : Place) : Prop where
  free : d.tree.find? place = none
  opens : ∃ left, d'.Opens p left place
  bare : ∀ rest, rest ≠ [] → d'.tree.find? (place ++ rest) = none

private theorem fresh_of_makeDirectory (order : d.tree.InOrder)
    (made : d.makeDirectory p = .ok d') : ∃ place, Fresh d d' p place := by
  obtain ⟨directory, name, left, vacant, rfl, opens⟩ := opens_of_makeDirectory made
  refine ⟨directory ++ [name], vacant.free, ⟨left, opens⟩, fun rest filled => ?_⟩
  have no_directory : d.tree.find? (directory ++ [name]) ≠ some .directory := by
    simp [vacant.free]
  exact (Tree.find?_put_ne (by simpa using filled) _).trans (order.find?_below filled no_directory)

/-- In a directory that has nothing in it others can be made, each in the one before it. -/
private theorem Fresh.makeEach (order : d.tree.InOrder) (fresh : Fresh d d' p place)
    (spellable : isSpellable p = true) (ladder : Ladder p missing goal)
    (fits : ∀ q ∈ missing, Fits q) :
    ∃ d'' place, d'.makeEach missing = (.ok (), d'') ∧ Fresh d d'' goal place := by
  induction ladder generalizing d' place with
  | stay p => exact ⟨d', place, rfl, fresh⟩
  | enter usable more ih =>
    rename_i p goal name rest
    obtain ⟨left, opens⟩ := fresh.opens
    have here := fits _ List.mem_cons_self
    have free := fresh.bare [name] (by simp)
    have made := opens.reaches.makeDirectory_entry usable here spellable
    rw [if_pos free] at made
    have still : (d'.put (place ++ [name]) .directory).Opens p left place :=
      opens.mono rfl (Tree.within_put free .directory)
    have found : (d'.put (place ++ [name]) .directory).tree.find?
        (place ++ [name]) = some .directory := Tree.find?_put_self (by simp) _
    have opened := still.entry usable here found
    have entered : Fresh d (d'.put (place ++ [name]) .directory) (p.entry name)
        (place ++ [name]) := by
      refine ⟨order.find?_below (by simp) (by simp [fresh.free]), ⟨left, opened⟩,
        fun below filled => ?_⟩
      refine (Tree.find?_put_ne (by simpa using filled) _).trans ?_
      rw [List.append_assoc]
      exact fresh.bare _ (by simp)
    rw [Disk.makeEach, made]
    exact ih entered (isSpellable_entry usable spellable) fun q mem =>
      fits q (List.mem_cons_of_mem _ mem)

/-- An entry of a path is not at the top. -/
private theorem isTop_entry (usable : Usable name) (filled : base.bytes ≠ []) :
    isTop (base.entry name) = false := by
  unfold isTop
  obtain ⟨c, counts⟩ := Option.ne_none_iff_exists'.1 usable.counts
  have components := Path.components_entry filled usable.named.slashless counts
  have before : base.components ≠ [] := mt Path.components_eq_nil_iff.1 filled
  rcases Path.components_parent? (base.entry name) with ⟨_, none | root⟩ | ⟨parent, _, some, _⟩
  · simp [components] at none
  · rw [components] at root
    exact absurd (List.append_eq_singleton_iff.1 root) (by simp [before])
  · simp [components, some]

/-- Below a directory that is there, either no directory can be made and nothing is changed, or all
that were missing are made. -/
private theorem makeFrom_under (order : d.tree.InOrder) (spellable : isSpellable base = true)
    (opens : d.Opens base left place) (usable : ∀ name ∈ names, Usable name)
    (hidden : d.isDirectory (under base names) = false)
    (ladder : Ladder (under base names) missing goal) (fits : ∀ q ∈ missing, Fits q) {bound : Nat}
    (enough : names.length ≤ bound) :
    (∃ fault, d.makeFrom (ancestors bound (under base names)) missing = (.error fault, d) ∧
      ∃ inner outer, names = inner ++ outer ∧ outer ≠ [] ∧
        d.makeDirectory (under base outer) = .error fault ∧ fault.kind ≠ .notFound) ∨
      ∃ d' place, d.makeFrom (ancestors bound (under base names)) missing = (.ok (), d') ∧
        Fresh d d' goal place := by
  induction names generalizing missing bound with
  | nil =>
    have there := opens.isDirectory spellable
    rw [under] at hidden
    rw [hidden] at there
    cases there
  | cons name outer ih =>
    obtain ⟨bound, rfl⟩ : ∃ fewer, bound = fewer + 1 :=
      Nat.exists_eq_succ_of_ne_zero (by simp at enough; omega)
    have first := usable name List.mem_cons_self
    have others : ∀ n ∈ outer, Usable n := fun n mem => usable n (List.mem_cons_of_mem _ mem)
    have filled : (under base outer).bytes ≠ [] := under_filled others opens.fits.filled
    have outer_spellable := isSpellable_under others spellable
    obtain ⟨rest, above⟩ : ∃ rest, ancestors (bound + 1) (under base (name :: outer)) =
        under base (name :: outer) :: rest := ⟨_, rfl⟩
    have ended := climbed d (under base (name :: outer)) rest missing
    rw [above]
    generalize d.makeFrom _ missing = result at ended ⊢
    cases ended with
    | top top => exact absurd top (Bool.eq_false_iff.1 (isTop_entry first filled))
    | there there => exact absurd there (Bool.eq_false_iff.1 hidden)
    | made made =>
      obtain ⟨place, fresh⟩ := fresh_of_makeDirectory order made
      exact .inr (fresh.makeEach order (isSpellable_entry first outer_spellable) ladder fits)
    | refused failed kind =>
      exact .inl ⟨_, rfl, [], name :: outer, rfl, by simp, failed, kind⟩
    | wants _ wants =>
      cases outer with
      | nil => exact absurd wants (opens.not_wants first spellable)
      | cons n outer =>
        obtain rfl : rest = ancestors bound (under base (n :: outer)) := by
          rw [ancestors, parent?_under usable opens.fits.filled] at above
          exact (List.cons.inj above).2.symm
        have fits' : ∀ q ∈ under base (name :: n :: outer) :: missing, Fits q :=
          List.forall_mem_cons.2 ⟨wants.fits (entry_filled first _), fits⟩
        rcases ih others (wants.hidden first) (.enter first ladder) fits'
          (by simpa using enough) with
          ⟨fault, ended, inner, refused, eq, more⟩ | made
        · exact .inl ⟨fault, ended, name :: inner, refused, congrArg (name :: ·) eq, more⟩
        · exact .inr made

/-- Making directories below one that is there changes nothing, because one of them is refused, or
makes them all. -/
theorem makeDirectories_under (order : d.tree.InOrder) (there : d.isDirectory base = true)
    (usable : ∀ name ∈ names, Usable name) (hidden : d.isDirectory (under base names) = false) :
    (∃ fault, d.makeDirectories (under base names) = (.error fault, d) ∧
      ∃ inner outer, names = inner ++ outer ∧ outer ≠ [] ∧
        d.makeDirectory (under base outer) = .error fault ∧ fault.kind ≠ .notFound) ∨
      ∃ d' place, d.makeDirectories (under base names) = (.ok (), d') ∧
        Fresh d d' (under base names) place := by
  obtain ⟨spellable, left, place, opens⟩ := opens_of_isDirectory there
  exact makeFrom_under order spellable opens usable hidden (.stay _)
    (fun q mem => absurd mem List.not_mem_nil) (Nat.le_succ_of_le (length_le_under usable))

/-! ### Where nothing is in the way -/

/-- A walk to a free name ends there, or goes no further. -/
theorem Opens.walk_free (opens : d.Opens base left place) (usable : ∀ n ∈ names ++ [name], Usable n)
    (free : d.tree.find? (place ++ [name]) = none)
    (fits : Fits (under base (names ++ [name]))) (follow : Bool) :
    d.walkSteps follow (under base (names ++ [name])) (stepsOf (under base (names ++ [name]))) =
      if names = [] then .ok (.vacant place name) else .error .notFound := by
  rw [walkSteps_of_fits fits, start_of_isAbsolute (isAbsolute_under usable),
    stepsOf_under usable, List.reverse_append,
    List.reverse_singleton, List.singleton_append,
    opens.led.walk_append follow (by simp),
    Tree.walk_looked opens.housed (usable name (by simp)).looked, free]
  simp

theorem Opens.exists?_free (opens : d.Opens base left place) (names : List Name)
    (usable : ∀ n ∈ names ++ [name], Usable n)
    (free : d.tree.find? (place ++ [name]) = none)
    (fits : Fits (under base (names ++ [name]))) :
    d.exists? (under base (names ++ [name])) = false := by
  obtain ⟨inner, outer, eq⟩ : ∃ inner outer, names ++ [name] = inner :: outer :=
    List.exists_cons_of_ne_nil (by simp)
  have unslashed : endsInSlash (under base (names ++ [name])) = false := by
    rw [eq] at usable ⊢
    exact endsInSlash_entry (usable inner List.mem_cons_self) _
  have walked := opens.walk_free usable free fits true
  have lost : ∃ fault, d.locate (under base (names ++ [name])) = .error fault := by
    rw [Disk.locate, Disk.walk, lookupSteps, unslashed, if_neg Bool.false_ne_true, walked]
    by_cases only : names = []
    · exact ⟨.notFound, by rw [if_pos only]⟩
    · exact ⟨.notFound, by rw [if_neg only]⟩
  obtain ⟨fault, lost⟩ := lost
  rw [exists?, status?, lost]
  simp

/-- Below a directory that is there all can be made if the first of them has a free name. -/
theorem Opens.makeDirectories_new (order : d.tree.InOrder) (opens : d.Opens base left place)
    (spellable : isSpellable base = true) (names : List Name)
    (usable : ∀ n ∈ names ++ [name], Usable n)
    (free : d.tree.find? (place ++ [name]) = none)
    (fits : Fits (under base (names ++ [name]))) :
    ∃ d' place, d.makeDirectories (under base (names ++ [name])) = (.ok (), d') ∧
      Fresh d d' (under base (names ++ [name])) place := by
  have hidden := not_isDirectory_of_free (opens.exists?_free names usable free fits)
  rcases makeDirectories_under order (opens.isDirectory spellable) usable hidden with
    ⟨fault, _, inner, outer, eq, filled, refused, kind⟩ | made
  · obtain ⟨outer, last, rfl⟩ := List.eq_nil_or_concat outer |>.resolve_left filled
    rw [List.concat_eq_append] at eq refused
    rw [← List.append_assoc] at eq
    obtain ⟨rfl, same⟩ := List.append_inj' eq rfl
    obtain rfl := List.singleton_inj.1 same
    have usable' : ∀ n ∈ outer ++ [name], Usable n := fun n mem => usable n (by simp_all)
    have fits' : Fits (under base (outer ++ [name])) := by
      rw [List.append_assoc] at usable fits
      exact fits_of_under usable opens.fits.filled fits
    rw [makeDirectory, if_pos (isSpellable_under usable' spellable),
      opens.walk_free usable' free fits' false] at refused
    by_cases only : outer = []
    · rw [if_pos only] at refused
      cases refused
    · rw [if_neg only] at refused
      obtain rfl := Except.error.inj refused
      exact absurd rfl kind
  · exact made

end Disk

end Files

end ModBench
