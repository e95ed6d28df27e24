import ModBench.Proofs.Files.Unpack
import ModBench.Proofs.Project.Temporary
import ModBench.Proofs.Text.Bytes

/-!
The entries of a mod's folder.  Everything in the folder has one entry, with its path from the mod's
directory and, if it is no directory, with what is read at its path.  The entries come in strict
order, and each can be unpacked once those before it are.
-/

set_option autoImplicit false
set_option relaxedAutoImplicit false

namespace ModBench

open Files (Disk Tree Place Name Node Content ArchiveEntry stepsOf lookupSteps)

/-- A text joined at slashes has the joined bytes of its pieces. -/
private theorem Text.encode_join (pieces : List (List Char)) :
    encode (join '/' pieces) = join slash (pieces.map encode) := by
  induction pieces with
  | nil => rfl
  | cons piece rest ih =>
    cases rest with
    | nil => rfl
    | cons next rest =>
      rw [join_cons '/' piece (List.cons_ne_nil next rest), List.map_cons,
        join_cons slash (encode piece) (by simp), ← ih, encode, List.flatMap_append]
      rfl

namespace Package

variable {d : Disk} {l : ModLayout} {left : Nat} {D : Place} {es : List ArchiveEntry}
  {names : List Name} {node : Node} {f : Found}

/-- Where the folder is in the mod's directory. -/
def folderPlace (D : Place) : Place :=
  D ++ [Text.encodeString ModLayout.r6Name]

/-- What is no link is found where its path ends. -/
theorem locate_below (order : d.tree.InOrder) (coherent : l.Coherent)
    (opens : d.Opens l.modDir left D) (found : d.tree.find? (folderPlace D ++ names) = some node)
    (real : ∀ target, node ≠ .link target) {goal : Place}
    (located : d.locate (pathBelow l.r6Dir names) = .ok goal) : goal = folderPlace D ++ names := by
  have grouped : folderPlace D ++ names = D ++ Text.encodeString ModLayout.r6Name :: names := by
    simp [folderPlace]
  rw [grouped] at found ⊢
  have named : ∀ name ∈ Text.encodeString ModLayout.r6Name :: names,
      Tree.IsName name := fun name mem =>
    order.named _ (Tree.mem_of_find? (by simp) found) name (List.mem_append_right D mem)
  obtain ⟨steps, absolute, unslashed⟩ := pathBelow_steps
    (fun name mem => named name (List.mem_cons_of_mem _ mem)) coherent.r6Dir_filled
  obtain ⟨dots, idle, front⟩ := coherent.steps
  have walked := Disk.walk_of_locate located
  rw [Disk.walk, lookupSteps, unslashed coherent.unslashed, if_neg (by simp)] at walked
  have eq : stepsOf (pathBelow l.r6Dir names) =
      stepsOf l.modDir ++ (dots ++ Text.encodeString ModLayout.r6Name :: names) := by
    simp [steps, front]
  rw [opens.walk_entry (Disk.fits_of_walkSteps walked) (absolute.trans coherent.absolute) dots idle
    (by simp) eq true] at walked
  exact order.walk_names named found real walked

/-! ### Entries -/

/-- What is read at the path of something in the folder. -/
def contentBelow (d : Disk) (l : ModLayout) (names : List Name) : List UInt8 :=
  match d.status? (pathBelow l.r6Dir names) with
  | some (.file content) => content.data
  | _ => []

/-- The entry of something in the folder: its path from the mod's directory, with a slash behind it
and no content if it is a directory. -/
def entryFor (d : Disk) (l : ModLayout) (f : Found) : ArchiveEntry :=
  if f.node = .directory then ⟨String.ofList (entryName f.names ++ ['/']), none⟩
  else ⟨String.ofList (entryName f.names), some (contentBelow d l f.names)⟩

/-- Something is read as a file. -/
def IsRead (d : Disk) (l : ModLayout) (names : List Name) : Prop :=
  ∃ content, d.status? (pathBelow l.r6Dir names) = some (.file content)

/-- A name is text without backslashes. -/
def IsPlain (name : Name) : Prop :=
  ∃ s, Text.decode? name = some s ∧ '\\' ∉ s.toList

instance (name : Name) : Decidable (IsPlain name) :=
  match read : Text.decode? name with
  | some s => decidable_of_iff ('\\' ∉ s.toList) (by simp [IsPlain, read])
  | none => .isFalse (by simp [IsPlain, read])

/-- Names that things can have, each of them plain. -/
def Plain (names : List Name) : Prop :=
  ∀ name ∈ names, Tree.IsName name ∧ IsPlain name

/-- A plain name is written as the text that it is. -/
theorem IsPlain.encode_shown {name : Name} (plain : IsPlain name) :
    Text.encode (shown name) = name := by
  obtain ⟨s, read, _⟩ := plain
  obtain rfl := Text.decode?_eq_some_iff.1 read
  rw [shown, Text.decodeLossy_encodeString]
  rfl

private theorem IsPlain.unslashed {name : Name} (plain : IsPlain name) : '\\' ∉ shown name := by
  obtain ⟨s, read, unslashed⟩ := plain
  obtain rfl := Text.decode?_eq_some_iff.1 read
  rwa [shown, Text.decodeLossy_encodeString]

/-- The bytes of an entry's name are the folder's name and the names below it, with slashes. -/
theorem encode_entryName (plain : Plain names) : Text.encode (entryName names) =
    Text.join slash (Text.encodeString ModLayout.r6Name :: names) := by
  have same : names.map (Text.encode ∘ shown) = names :=
    (List.map_congr_left fun name mem => (plain name mem).2.encode_shown).trans (List.map_id names)
  rw [entryName, Text.encode_join, List.map_cons, List.map_map, same]
  rfl

/-- The name of an entry does not end in a slash of either kind. -/
private theorem getLast?_entryName (plain : Plain names) :
    (entryName names).getLast? ≠ some '/' ∧ (entryName names).getLast? ≠ some '\\' := by
  have pieces : ∀ piece ∈ ModLayout.r6Name.toList :: names.map shown,
      piece ≠ [] ∧ '/' ∉ piece ∧ '\\' ∉ piece := by
    refine List.forall_mem_cons.2 ⟨by decide, List.forall_mem_map.2 fun name mem => ?_⟩
    obtain ⟨usable, plain⟩ := plain name mem
    refine ⟨fun empty => usable.filled ?_, fun inside => usable.slashless ?_, plain.unslashed⟩
    · rw [← plain.encode_shown, empty]
      rfl
    · rw [← plain.encode_shown]
      exact List.mem_flatMap.2 ⟨'/', inside, List.mem_singleton_self slash⟩
  have ends : ∀ c : Char, (entryName names).getLast? = some c →
      ∃ piece ∈ ModLayout.r6Name.toList :: names.map shown, c ∈ piece := fun c =>
    Text.mem_of_getLast?_join fun p mem => (pieces p mem).1
  constructor
  · intro last
    obtain ⟨piece, mem, inside⟩ := ends _ last
    exact (pieces piece mem).2.1 inside
  · intro last
    obtain ⟨piece, mem, inside⟩ := ends _ last
    exact (pieces piece mem).2.2 inside

private theorem directoryName_entryName (plain : Plain names) :
    directoryName (entryName names) = entryName names ++ ['/'] := by
  obtain ⟨slash, backslash⟩ := getLast?_entryName plain
  rw [directoryName, if_neg (not_or.2 ⟨slash, backslash⟩)]

private theorem entryOf_eq_ok {e : ArchiveEntry} (plain : Plain f.names)
    (made : entryOf d l f = .ok e) :
    e = entryFor d l f ∧ (f.node ≠ .directory → IsRead d l f.names) := by
  unfold entryOf at made
  dsimp only at made
  unfold entryFor
  split at made
  · rename_i directory
    rw [if_pos directory, ← directoryName_entryName plain]
    split at made
    · cases made
    · exact ⟨(Except.ok.inj made).symm, fun other => absurd directory other⟩
  · rename_i other
    split at made
    · cases made
    rename_i place opened
    split at made
    · cases made
    rename_i content read
    have shown : d.status? (pathBelow l.r6Dir f.names) = some (.file content) :=
      Disk.status?_of_read opened read
    rw [if_neg other, contentBelow, shown]
    exact ⟨(Except.ok.inj made).symm, fun _ => ⟨content, shown⟩⟩

private theorem entriesOf_eq_ok {found : List Found} (plain : ∀ f ∈ found, Plain f.names)
    (made : entriesOf d l found = .ok es) :
    es = found.map (entryFor d l) ∧ ∀ f ∈ found, f.node ≠ .directory → IsRead d l f.names := by
  induction found generalizing es with
  | nil =>
    obtain rfl := Except.ok.inj made
    simp
  | cons f rest ih =>
    unfold entriesOf at made
    split at made
    · cases made
    rename_i e first
    split at made
    · cases made
    rename_i entries others
    obtain rfl := Except.ok.inj made
    obtain ⟨rfl, read⟩ := entryOf_eq_ok (plain f List.mem_cons_self) first
    obtain ⟨rfl, reads⟩ := ih (fun g mem => plain g (List.mem_cons_of_mem _ mem)) others
    exact ⟨rfl, List.forall_mem_cons.2 ⟨read, reads⟩⟩

/-! ### The folder -/

/-- What the search for the archive finds, when the folder is a directory. -/
def inFolder (t : Tree) (D : Place) : List Found :=
  ⟨[], .directory⟩ :: below t t.height (folderPlace D)

theorem mem_inFolder (order : d.tree.InOrder)
    (housed : d.tree.find? (folderPlace D) = some .directory) :
    f ∈ inFolder d.tree D ↔ d.tree.find? (folderPlace D ++ f.names) = some f.node := by
  obtain ⟨names, node⟩ := f
  rw [inFolder, List.mem_cons, mem_below_height order]
  by_cases root : names = []
  · rw [root, List.append_nil, housed]
    simp [eq_comm]
  · simp [root]

theorem inFolder_sorted (order : d.tree.InOrder) : (inFolder d.tree D).Pairwise fun f g =>
    List.Lex Tree.NameBefore f.names g.names := by
  refine List.pairwise_cons.2 ⟨fun f mem => ?_, below_sorted order⟩
  obtain ⟨filled, _⟩ := (mem_below_height order).1 mem
  cases names : f.names with
  | nil => exact absurd names filled
  | cons => exact .nil

private theorem search_folder (coherent : l.Coherent) (opens : d.Opens l.modDir left D)
    (housed : d.tree.find? (folderPlace D) = some .directory) {found : List Found}
    (searched : search d l.r6Dir = .ok found) : found = inFolder d.tree D := by
  have there : d.tree.find? (D ++ [Text.encodeString ModLayout.r6Name]) = some .directory := housed
  unfold search at searched
  cases walked : d.walk false l.r6Dir with
  | error fault =>
    rw [walked] at searched
    cases searched
  | ok landing =>
    have at_folder := walk_r6 coherent opens (Disk.fits_of_walkSteps walked)
    rw [there, if_neg (by simp)] at at_folder
    rw [at_folder] at searched
    dsimp only at searched
    rw [there] at searched
    exact (Except.ok.inj searched).symm

/-- The entries of a folder that is a directory. -/
theorem entries_folder (order : d.tree.InOrder) (coherent : l.Coherent)
    (opens : d.Opens l.modDir left D) (housed : d.tree.find? (folderPlace D) = some .directory)
    (plain : ∀ names, d.tree.find? (folderPlace D ++ names) ≠ none → ∀ name ∈ names, IsPlain name)
    (read : entries d l = .ok es) :
    es = (inFolder d.tree D).map (entryFor d l) ∧
      ∀ f ∈ inFolder d.tree D, Plain f.names ∧ (f.node ≠ .directory → IsRead d l f.names) := by
  have plainly : ∀ f ∈ inFolder d.tree D, Plain f.names := by
    intro f mem name inside
    have found := (mem_inFolder order housed).1 mem
    have listed := Tree.mem_of_find? (by simp [folderPlace]) found
    exact ⟨order.named _ listed name (List.mem_append_right _ inside),
      plain f.names (by simp [found]) name inside⟩
  unfold entries at read
  cases searched : search d l.r6Dir with
  | error fault =>
    rw [searched] at read
    cases read
  | ok found =>
    rw [searched, search_folder coherent opens housed searched] at read
    obtain ⟨rfl, reads⟩ := entriesOf_eq_ok plainly read
    exact ⟨rfl, fun f mem => ⟨plainly f mem, reads f mem⟩⟩

/-! ### Places of entries -/

theorem entryFor_directory (f_directory : f.node = .directory) :
    entryFor d l f = ⟨String.ofList (entryName f.names ++ ['/']), none⟩ :=
  if_pos f_directory

theorem entryFor_file (real : f.node ≠ .directory) :
    entryFor d l f = ⟨String.ofList (entryName f.names), some (contentBelow d l f.names)⟩ :=
  if_neg real

theorem Plain.pieces (plain : Plain names) :
    ∀ name ∈ Text.encodeString ModLayout.r6Name :: names, Tree.IsName name :=
  List.forall_mem_cons.2 ⟨by decide, fun name mem => (plain name mem).1⟩

private theorem stepsOf_entryName (plain : Plain names) :
    stepsOf ⟨Text.encode (entryName names)⟩ = Text.encodeString ModLayout.r6Name :: names := by
  have pieces := plain.pieces
  rw [encode_entryName plain, Files.stepsOf_join fun piece mem => (pieces piece mem).slashless,
    List.filter_eq_self]
  intro piece mem
  simp [(pieces piece mem).filled]

private theorem getLast?_encode_entryName (plain : Plain names) :
    (Text.encode (entryName names)).getLast? ≠ some slash := by
  have pieces := plain.pieces
  rw [encode_entryName plain]
  intro last
  obtain ⟨piece, mem, inside⟩ := Text.mem_of_getLast?_join (fun p mem => (pieces p mem).filled) last
  exact (pieces piece mem).slashless inside

theorem toList_name_entryFor (d : Disk) (l : ModLayout) (f : Found) :
    (entryFor d l f).name.toList =
      entryName f.names ++ if f.node = .directory then ['/'] else [] := by
  by_cases directory : f.node = .directory
  · rw [entryFor_directory directory, if_pos directory, String.toList_ofList]
  · rw [entryFor_file directory, if_neg directory, String.toList_ofList, List.append_nil]

theorem ofString_name_entryFor (d : Disk) (l : ModLayout) (f : Found) :
    Path.ofString (entryFor d l f).name =
      ⟨Text.encode (entryName f.names) ++ if f.node = .directory then [slash] else []⟩ := by
  rw [Path.ofString, Text.encodeString, toList_name_entryFor, Text.encode, List.flatMap_append]
  by_cases directory : f.node = .directory
  · rw [if_pos directory, if_pos directory]
    rfl
  · rw [if_neg directory, if_neg directory]
    rfl

/-- An entry is unpacked to where the thing is in the folder. -/
theorem place_entryFor (plain : Plain f.names) :
    (entryFor d l f).place = Text.encodeString ModLayout.r6Name :: f.names := by
  have idle : stepsOf ⟨[]⟩ = [] := rfl
  rw [ArchiveEntry.place, ofString_name_entryFor]
  split
  · rw [Files.stepsOf_slash, stepsOf_entryName plain, idle, List.append_nil]
  · rw [List.append_nil, stepsOf_entryName plain]

/-- An entry is unpacked to a directory if it is one, and else to a file. -/
theorem node_entryFor (plain : Plain f.names) :
    (entryFor d l f).node = if f.node = .directory then .directory
      else .file (.bytes (contentBelow d l f.names)) := by
  rw [ArchiveEntry.node, Files.endsInSlash, ofString_name_entryFor]
  by_cases directory : f.node = .directory
  · simp [directory]
  · have last := getLast?_encode_entryName plain
    rw [if_neg directory, if_neg directory, List.append_nil, if_neg (by simp [last]),
      entryFor_file directory]
    rfl

/-- In a list that is in order, what something is in comes before it. -/
private theorem mem_before {before after : List Found} {g : Found}
    (sorted : (before ++ f :: after).Pairwise fun f g => List.Lex Tree.NameBefore f.names g.names)
    (mem : g ∈ before ++ f :: after) (inside : g.names <+: f.names) (other : g.names ≠ f.names) :
    g ∈ before := by
  obtain ⟨_, behind, _⟩ := List.pairwise_append.1 sorted
  rcases List.mem_append.1 mem with earlier | later
  · exact earlier
  · rcases List.mem_cons.1 later with rfl | later
    · exact absurd rfl other
    · exact absurd inside (Tree.not_prefix_of_lex ((List.pairwise_cons.1 behind).1 g later))

/-- The entries of the folder can be unpacked one after the other. -/
theorem nested_inFolder (order : d.tree.InOrder)
    (housed : d.tree.find? (folderPlace D) = some .directory)
    (plain : ∀ f ∈ inFolder d.tree D, Plain f.names) :
    Tree.Nested ((inFolder d.tree D).map (entryFor d l)) := by
  have sorted := inFolder_sorted (D := D) order
  have mem_iff : ∀ {f}, f ∈ inFolder d.tree D ↔ _ := fun {f} => mem_inFolder (f := f) order housed
  have begins : ∀ before after, inFolder d.tree D = before ++ after →
      Tree.Nested (before.map (entryFor d l)) := by
    intro before
    induction before using List.reverseRecOn with
    | nil => exact fun _ _ => .nil
    | append_singleton before f ih =>
      intro after eq
      rw [List.append_assoc, List.singleton_append] at eq
      rw [eq] at sorted mem_iff plain
      obtain ⟨_, _, across⟩ := List.pairwise_append.1 sorted
      have mem : f ∈ before ++ f :: after := by simp
      have place := place_entryFor (d := d) (l := l) (plain f mem)
      rw [List.map_append]
      refine .snoc (ih _ eq) ?_ ?_ ?_
      · rw [place]
        exact List.cons_ne_nil _ _
      · rw [place, List.map_map]
        intro again
        obtain ⟨g, earlier, same⟩ := List.mem_map.1 again
        rw [Function.comp, place_entryFor (plain g (by simp [earlier]))] at same
        have names := (List.cons.inj same).2
        exact Tree.not_prefix_of_lex (across g earlier f List.mem_cons_self)
          (names ▸ List.prefix_rfl)
      · rw [place]
        rcases List.eq_nil_or_concat f.names with root | ⟨folder, name, names⟩
        · rw [root]
          exact Or.inl rfl
        · right
          rw [List.concat_eq_append] at names
          have found := mem_iff.1 mem
          rw [names, ← List.append_assoc] at found
          have directory := order.directory_of_below (by simp) (found ▸ Option.some_ne_none _)
          have listed : (⟨folder, .directory⟩ : Found) ∈ before ++ f :: after :=
            mem_iff.2 directory
          have earlier : (⟨folder, .directory⟩ : Found) ∈ before :=
            mem_before sorted listed (names ▸ List.prefix_append _ _) (by simp [names])
          refine ⟨_, List.mem_map_of_mem earlier, ?_, ?_⟩
          · rw [place_entryFor (plain _ listed), names]
            rw [← List.cons_append, List.dropLast_concat]
          · rw [node_entryFor (plain _ listed), if_pos rfl]
  exact begins _ [] (List.append_nil _).symm

end Package

end ModBench
