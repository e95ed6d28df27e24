import ModBench.Proofs.Files.Written

/-!
Entries of directories.  A path that leads to a directory leads to the directory's entries with
their names behind it: what stands in the directory is found, written and taken away there.
-/

set_option autoImplicit false
set_option relaxedAutoImplicit false

namespace ModBench.Files

open ModBench.Files.Tree (IsName Looked)

/-- A name for something new. -/
structure Usable (name : Name) : Prop where
  named : IsName name
  short : name.length ≤ maxNameLength

instance (name : Name) : Decidable (Usable name) :=
  decidable_of_iff (IsName name ∧ name.length ≤ maxNameLength)
    ⟨fun ⟨a, b⟩ => ⟨a, b⟩, fun ⟨a, b⟩ => ⟨a, b⟩⟩

namespace Usable

variable {name : Name} (usable : Usable name)
include usable

theorem looked : Looked name :=
  ⟨usable.named.here, usable.named.up, usable.short⟩

theorem counts : Path.componentOf name ≠ none := by
  intro none
  rcases Path.componentOf_eq_none none with empty | dot
  · exact usable.named.filled empty
  · exact usable.named.here dot

end Usable

/-! ### Paths of entries -/

section Entries

variable {base : Path} {name : Name}

theorem stepsOf_entry (usable : Usable name) (base : Path) :
    stepsOf (base.entry name) = stepsOf base ++ [name] := by
  by_cases filled : base.bytes = []
  · have none : stepsOf base = [] := by
      rw [stepsOf, filled]
      rfl
    rw [Path.entry, Path.join_of_empty filled, none]
    exact stepsOf_name usable.named.slashless usable.named.filled
  · exact stepsOf_join_name usable.named.slashless usable.named.filled filled

theorem isAbsolute_entry (usable : Usable name) (base : Path) :
    (base.entry name).isAbsolute = base.isAbsolute := by
  by_cases filled : base.bytes = []
  · have relative : base.isAbsolute = false := by
      simp [Path.isAbsolute, filled]
    rw [Path.entry, Path.join_of_empty filled, relative]
    exact Path.not_isAbsolute_of_slashless usable.named.slashless
  · exact isAbsolute_join_name usable.named.slashless filled

theorem endsInSlash_entry (usable : Usable name) (base : Path) :
    endsInSlash (base.entry name) = false := by
  by_cases filled : base.bytes = []
  · rw [Path.entry, Path.join_of_empty filled, endsInSlash, beq_eq_false_iff_ne]
    exact fun slash => usable.named.slashless (List.mem_of_getLast? slash)
  · exact endsInSlash_join_name usable.named.slashless usable.named.filled filled

theorem entry_filled (usable : Usable name) (base : Path) : (base.entry name).bytes ≠ [] := by
  by_cases filled : base.bytes = []
  · rw [Path.entry, Path.join_of_empty filled]
    exact usable.named.filled
  · exact join_name_ne_nil usable.named.slashless filled

namespace Disk

theorem isSpellable_entry (usable : Usable name) (spellable : isSpellable base = true) :
    isSpellable (base.entry name) = true := by
  have relative := Path.not_isAbsolute_of_slashless usable.named.slashless
  have added := usable.named.nulless
  unfold isSpellable at spellable ⊢
  rw [Path.entry, Path.join_of_relative relative]
  unfold Path.gap
  split <;> simp_all

/-- The path of a directory is not longer than those of its entries. -/
private theorem fits_of_entry (usable : Usable name) (filled : base.bytes ≠ [])
    (fits : Fits (base.entry name)) : Fits base := by
  have short := fits.short
  rw [Path.entry,
    Path.join_of_relative (Path.not_isAbsolute_of_slashless usable.named.slashless)] at short
  simp only [List.length_append] at short
  exact ⟨filled, by omega⟩

end Disk

end Entries

/-! ### Nested entries -/

section Under

variable {base : Path} {name : Name} {names : List Name}

/-- The path of nested entries, the innermost name first. -/
def under (base : Path) : List Name → Path
  | [] => base
  | name :: outer => (under base outer).entry name

theorem under_filled (usable : ∀ name ∈ names, Usable name) (filled : base.bytes ≠ []) :
    (under base names).bytes ≠ [] := by
  cases names with
  | nil => exact filled
  | cons name outer => exact entry_filled (usable name List.mem_cons_self) _

private theorem under_append {bytes : List UInt8} (usable : ∀ name ∈ names, Usable name)
    (filled : bytes ≠ []) (front : List UInt8) :
    under ⟨front ++ bytes⟩ names = ⟨front ++ (under ⟨bytes⟩ names).bytes⟩ := by
  induction names with
  | nil => rfl
  | cons name outer ih =>
    have relative :=
      Path.not_isAbsolute_of_slashless (usable name List.mem_cons_self).named.slashless
    have others : ∀ n ∈ outer, Usable n := fun n mem => usable n (List.mem_cons_of_mem _ mem)
    have outer_filled : (under ⟨bytes⟩ outer).bytes ≠ [] := under_filled others filled
    rw [under, under, ih others, Path.entry, Path.entry,
      Path.join_of_relative relative, Path.join_of_relative relative, Path.gap_append outer_filled]
    simp

theorem length_le_under (usable : ∀ name ∈ names, Usable name) :
    names.length ≤ (under base names).bytes.length := by
  induction names with
  | nil => exact Nat.zero_le _
  | cons name outer ih =>
    have named := (usable name List.mem_cons_self).named
    have shorter := ih fun n mem => usable n (List.mem_cons_of_mem _ mem)
    have filled := List.length_pos_iff.2 named.filled
    rw [under, Path.entry,
      Path.join_of_relative (Path.not_isAbsolute_of_slashless named.slashless)]
    simp only [List.length_append, List.length_cons]
    omega

theorem stepsOf_under (usable : ∀ name ∈ names, Usable name) :
    stepsOf (under base names) = stepsOf base ++ names.reverse := by
  induction names with
  | nil => simp [under]
  | cons name outer ih =>
    rw [under, stepsOf_entry (usable name List.mem_cons_self),
      ih fun n mem => usable n (List.mem_cons_of_mem _ mem)]
    simp

theorem isAbsolute_under (usable : ∀ name ∈ names, Usable name) :
    (under base names).isAbsolute = base.isAbsolute := by
  induction names with
  | nil => rfl
  | cons name outer ih =>
    exact (isAbsolute_entry (usable name List.mem_cons_self) _).trans
      (ih fun n mem => usable n (List.mem_cons_of_mem _ mem))

/-- The parent of an entry of an entry is that entry. -/
theorem parent?_under {outer : List Name} {inner : Name}
    (usable : ∀ n ∈ inner :: name :: outer, Usable n) (filled : base.bytes ≠ []) :
    (under base (inner :: name :: outer)).parent? = some (under base (name :: outer)) := by
  have inner_usable := usable inner (by simp)
  have name_usable := usable name (by simp)
  have outer_filled : (under base outer).bytes ≠ [] :=
    under_filled (fun n mem => usable n (by simp [mem])) filled
  obtain ⟨front, spelled⟩ : ∃ front, under base (name :: outer) = ⟨front ++ slash :: name⟩ := by
    rcases join_name name_usable.named.slashless outer_filled with
      ⟨joined, _⟩ | ⟨front, _, joined⟩
    · exact ⟨_, joined⟩
    · exact ⟨front, joined⟩
  have unslashed : ∀ front, (under base (name :: outer)).bytes ≠ front ++ [slash] := by
    intro front eq
    have plain : endsInSlash (under base (name :: outer)) = false :=
      endsInSlash_entry name_usable _
    rw [endsInSlash, eq] at plain
    simp at plain
  have joined : under base (inner :: name :: outer) =
      ⟨(under base (name :: outer)).bytes ++ slash :: inner⟩ := by
    rcases join_name inner_usable.named.slashless (entry_filled name_usable _) with
      ⟨joined, _⟩ | ⟨front, eq, _⟩
    · exact joined
    · exact absurd eq (unslashed front)
  rw [joined]
  refine Path.parent?_append_name ?_ (entry_filled name_usable _)
    inner_usable.named.slashless inner_usable.counts
  rw [spelled]
  exact Path.trimmed_of_name front name_usable.named.slashless name_usable.counts

theorem Disk.isSpellable_under (usable : ∀ name ∈ names, Usable name)
    (spellable : Disk.isSpellable base = true) : Disk.isSpellable (under base names) = true := by
  induction names with
  | nil => exact spellable
  | cons name outer ih =>
    exact isSpellable_entry (usable name List.mem_cons_self)
      (ih fun n mem => usable n (List.mem_cons_of_mem _ mem))

theorem Disk.fits_of_under {inner : List Name} (usable : ∀ n ∈ inner ++ names, Usable n)
    (filled : base.bytes ≠ []) (fits : Disk.Fits (under base (inner ++ names))) :
    Disk.Fits (under base names) := by
  induction inner with
  | nil => exact fits
  | cons name inner ih =>
    have others : ∀ n ∈ inner ++ names, Usable n := fun n mem => usable n (by simp_all)
    exact ih others (fits_of_entry (usable name (by simp)) (under_filled others filled) fits)

end Under

/-! ### Directories at the end of a way -/

namespace Disk

variable {d d' : Disk} {base p : Path} {left : Nat} {place : Place} {name : Name}

/-- What is read at a path is seen at its end. -/
theorem read_eq_ok_iff_status? {content : Content} :
    d.read p = .ok content ↔ d.status? p = some (.file content) := by
  rw [read_eq_ok, status?]
  constructor
  · rintro ⟨spellable, place, located, found⟩
    rw [if_pos spellable, located]
    exact found
  · intro seen
    split at seen
    · rename_i spellable
      cases located : d.locate p with
      | ok place =>
        rw [located] at seen
        exact ⟨spellable, place, rfl, seen⟩
      | error fault =>
        rw [located] at seen
        cases seen
    · cases seen

/-- The steps of a path lead to a directory. -/
structure Reaches (d : Disk) (p : Path) (place : Place) : Prop where
  led : ∃ left, d.tree.Leads maxLinks (d.start p) (stepsOf p) left place
  housed : d.tree.find? place = some .directory

theorem Opens.reaches (opens : d.Opens p left place) : d.Reaches p place :=
  ⟨⟨left, opens.led⟩, opens.housed⟩

private theorem Reaches.mono (reaches : d.Reaches p place) (cwd : d'.cwd = d.cwd)
    (within : Tree.Within d.tree d'.tree) : d'.Reaches p place := by
  obtain ⟨left, led⟩ := reaches.led
  exact ⟨⟨left, start_of_cwd cwd p ▸ led.mono within⟩, within _ _ reaches.housed⟩

namespace Reaches

variable (reaches : d.Reaches base place) (usable : Usable name) (fits : Fits (base.entry name))
include reaches usable fits

theorem walk_entry (follow : Bool) : ∃ left,
    d.walkSteps follow (base.entry name) (stepsOf (base.entry name)) =
      d.tree.walk follow left place [name] := by
  obtain ⟨left, led⟩ := reaches.led
  refine ⟨left, ?_⟩
  rw [walkSteps_of_fits fits, start_of_isAbsolute (isAbsolute_entry usable base),
    stepsOf_entry usable, led.walk_append follow (by simp)]

/-- The walk of a name in a directory ends at what has this name, or at a free place. -/
theorem walk_entry_last : d.walkSteps false (base.entry name) (stepsOf (base.entry name)) =
    if d.tree.find? (place ++ [name]) = none then .ok (.vacant place name)
    else .ok (.node (place ++ [name])) := by
  obtain ⟨left, walked⟩ := reaches.walk_entry usable fits false
  rw [walked, Tree.walk_last reaches.housed usable.looked]

/-- If no link has the name it makes no difference whether links are followed. -/
theorem walk_entry_plain
    (plain : ∀ target, d.tree.find? (place ++ [name]) ≠ some (.link target)) :
    d.walkSteps true (base.entry name) (stepsOf (base.entry name)) =
      if d.tree.find? (place ++ [name]) = none then .ok (.vacant place name)
      else .ok (.node (place ++ [name])) := by
  obtain ⟨left, walked⟩ := reaches.walk_entry usable fits true
  rw [walked, Tree.walk_looked reaches.housed usable.looked]
  cases found : d.tree.find? (place ++ [name]) with
  | none => rfl
  | some node =>
    cases node with
    | file => simp
    | directory => simp
    | link target => exact absurd found (plain target)

theorem locate_entry
    (plain : ∀ target, d.tree.find? (place ++ [name]) ≠ some (.link target)) :
    d.locate (base.entry name) =
      if d.tree.find? (place ++ [name]) = none then .error .notFound
      else .ok (place ++ [name]) := by
  have walked := reaches.walk_entry_plain usable fits plain
  rw [Disk.locate, walk, lookupSteps, endsInSlash_entry usable, if_neg Bool.false_ne_true, walked]
  by_cases free : d.tree.find? (place ++ [name]) = none
  · rw [if_pos free, if_pos free]
  · rw [if_neg free, if_neg free]

/-- What is seen at the path of an entry stands in the directory. -/
theorem status?_entry (spellable : isSpellable base = true)
    (plain : ∀ target, d.tree.find? (place ++ [name]) ≠ some (.link target)) :
    d.status? (base.entry name) = d.tree.find? (place ++ [name]) := by
  rw [status?, if_pos (isSpellable_entry usable spellable), reaches.locate_entry usable fits plain]
  by_cases free : d.tree.find? (place ++ [name]) = none
  · rw [if_pos free, free]
  · rw [if_neg free]

/-- A file is written in a directory under its name, unless that is a directory's, or that of a file
which may be read only. -/
theorem openToWrite_entry (spellable : isSpellable base = true)
    (plain : ∀ target, d.tree.find? (place ++ [name]) ≠ some (.link target)) :
    d.openToWrite (base.entry name) =
      if d.tree.find? (place ++ [name]) = some .directory then .error (.system .isADirectory)
      else if d.tree.isReadOnly (place ++ [name]) then .error (.system .permissionDenied)
      else .ok (place ++ [name]) := by
  rw [openToWrite, if_pos (isSpellable_entry usable spellable),
    reaches.walk_entry_plain usable fits plain, endsInSlash_entry usable]
  cases found : d.tree.find? (place ++ [name]) with
  | none => simp [Tree.isReadOnly, found]
  | some node => simp [found]

/-- A file is written in a directory under a name that is free, and its path leads to it. -/
theorem write_new (spellable : isSpellable base = true)
    (free : d.tree.find? (place ++ [name]) = none) (data : List UInt8) :
    d.write (base.entry name) data = .ok (d.put (place ++ [name]) (.file (.bytes data))) ∧
      (d.put (place ++ [name]) (.file (.bytes data))).locate (base.entry name) =
        .ok (place ++ [name]) := by
  have writable : d.tree.isReadOnly (place ++ [name]) = false := by
    rw [Tree.isReadOnly, free]
  have opened := reaches.openToWrite_entry usable fits spellable (by rw [free]; nofun)
  rw [free, if_neg nofun, writable, if_neg nofun] at opened
  have found : (d.put (place ++ [name]) (.file (.bytes data))).tree.find?
      (place ++ [name]) = some (.file (.bytes data)) := Tree.find?_put_self (by simp) _
  have still : (d.put (place ++ [name]) (.file (.bytes data))).Reaches base place :=
    reaches.mono rfl (Tree.within_put free _)
  have located := still.locate_entry usable fits (by rw [found]; nofun)
  rw [found, if_neg nofun] at located
  exact ⟨by rw [write, opened], located⟩

/-- What is taken away under a name in a directory stood there. -/
theorem removeFile_entry (spellable : isSpellable base = true)
    (no_directory : d.tree.find? (place ++ [name]) ≠ some .directory)
    (loose : place ++ [name] ∉ d.pinned) :
    d.removeFile (base.entry name) =
      if d.tree.find? (place ++ [name]) = none then .error (.system .notFound)
      else .ok (d.withTree (d.tree.delete (place ++ [name]))) := by
  rw [removeFile, if_pos (isSpellable_entry usable spellable), reaches.walk_entry_last usable fits,
    endsInSlash_entry usable]
  by_cases free : d.tree.find? (place ++ [name]) = none
  · rw [if_pos free, if_pos free]
  · rw [if_neg free, if_neg free]
    simp [no_directory, loose]

/-- A directory is made in one that is there, unless something has its name. -/
theorem makeDirectory_entry (spellable : isSpellable base = true) :
    d.makeDirectory (base.entry name) =
      if d.tree.find? (place ++ [name]) = none then
        .ok (d.put (place ++ [name]) .directory)
      else .error (.system .alreadyExists) := by
  rw [makeDirectory, if_pos (isSpellable_entry usable spellable),
    reaches.walk_entry_last usable fits]
  by_cases free : d.tree.find? (place ++ [name]) = none
  · rw [if_pos free, if_pos free]
  · rw [if_neg free, if_neg free]

end Reaches

/-- A path opens the directories in one that it opens. -/
theorem Opens.entry (opens : d.Opens base left place) (usable : Usable name)
    (fits : Fits (base.entry name))
    (found : d.tree.find? (place ++ [name]) = some .directory) :
    d.Opens (base.entry name) left (place ++ [name]) where
  fits := fits
  led := by
    rw [stepsOf_entry usable, start_of_isAbsolute (isAbsolute_entry usable base)]
    exact opens.led.trans (.enter opens.housed usable.looked found (by simp) (.stay _ _))
  housed := found

end Disk

/-! ### Paths of any length -/

/-- The name of the directory that such paths lead to. -/
def slashedName : Name := Text.encodeString "w"

/-- A path that ends with so many slashes and one more. -/
def slashed (count : Nat) : Path :=
  ⟨(slashedName ++ List.replicate count slash) ++ [slash]⟩

private theorem stepsOf_slashed (count : Nat) : stepsOf (slashed count) = [slashedName] := by
  have idle : ∀ n, stepsOf ⟨List.replicate n slash⟩ = [] := by
    intro n
    induction n with
    | zero => rfl
    | succ n ih =>
      have cut := stepsOf_slash [] (List.replicate n slash)
      rw [ih, List.append_nil] at cut
      exact cut
  have cut := stepsOf_slash slashedName (List.replicate count slash)
  rw [idle] at cut
  rw [slashed, List.append_assoc, ← List.replicate_succ']
  exact cut

namespace Disk

theorem isSpellable_slashed (count : Nat) : isSpellable (slashed count) = true := by
  have nulless : 0 ∉ slashedName := by decide
  simp [isSpellable, slashed, nulless]

theorem fits_slashed_iff (count : Nat) (names : List Name)
    (usable : ∀ name ∈ names, Usable name) :
    Fits (under (slashed count) names) ↔
      count + 1 + (under ⟨[slash]⟩ names).bytes.length < maxPathLength := by
  have filled : (under (slashed count) names).bytes ≠ [] :=
    under_filled usable (by simp [slashed])
  have one : slashedName.length = 1 := by decide
  have length : (under (slashed count) names).bytes.length =
      count + 1 + (under ⟨[slash]⟩ names).bytes.length := by
    rw [slashed, under_append usable (by simp), List.length_append, List.length_append, one,
      List.length_replicate, Nat.add_comm 1]
  rw [← length]
  exact ⟨fun fits => fits.short, fun short => ⟨filled, short⟩⟩

theorem fits_slashed {count : Nat} (short : count + 2 < maxPathLength) : Fits (slashed count) := by
  refine (fits_slashed_iff count [] nofun).2 ?_
  have added : (under ⟨[slash]⟩ []).bytes.length = 1 := rfl
  omega

theorem opens_slashed {d : Disk} {count : Nat} (cwd : d.cwd = [])
    (housed : d.tree.find? [slashedName] = some .directory) (fits : Fits (slashed count)) :
    d.Opens (slashed count) maxLinks [slashedName] := by
  have looked : Looked slashedName := ⟨by decide, by decide, by decide⟩
  have start : d.start (slashed count) = [] := by
    rw [Disk.start, cwd]
    split <;> rfl
  refine ⟨fits, ?_, housed⟩
  rw [stepsOf_slashed, start]
  exact .enter rfl looked housed (by simp) (.stay _ _)

end Disk

end ModBench.Files
