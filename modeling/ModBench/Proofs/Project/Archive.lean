import Mathlib
import ModBench.Proofs.Project.Folder
import ModBench.Proofs.Project.Packaging
import ModBench.Proofs.Text.Bytes

/-!
What an archive holds.  Its entries are the things in the mod's folder, each once and in order, a
directory before what is in it, with the content that is read at their paths.  Unpacked they are
that folder again, with files for links.
-/

set_option autoImplicit false
set_option relaxedAutoImplicit false

namespace ModBench

open Files (Disk Tree Place Name Node Content ArchiveEntry)

namespace Package

variable {d d' : Disk} {l : ModLayout} {left : Nat} {D : Place} {es : List ArchiveEntry}
  {names : List Name}

/-! ### Entries and things in the folder -/

/-- An archive holds a folder: its entries are those of the directories in the folder, and of all
else with what is read at its path.  Each comes once, and a directory before what is in it. -/
structure Holds (d : Disk) (l : ModLayout) (D : Place) (es : List ArchiveEntry) : Prop where
  first : es.head? = some ⟨"r6/", none⟩
  directories : ∀ name, ⟨name, none⟩ ∈ es ↔ ∃ names,
    d.tree.find? (folderPlace D ++ names) = some .directory ∧
    name = String.ofList (entryName names ++ ['/'])
  files : ∀ name data, ⟨name, some data⟩ ∈ es ↔ ∃ names node content,
    d.tree.find? (folderPlace D ++ names) = some node ∧ node ≠ .directory ∧
    d.status? (pathBelow l.r6Dir names) = some (.file content) ∧
    name = String.ofList (entryName names) ∧ data = content.data
  read : ∀ names node, d.tree.find? (folderPlace D ++ names) = some node → node ≠ .directory →
    ∃ content, d.status? (pathBelow l.r6Dir names) = some (.file content) ∧
      ∀ own, node = .file own → content = own
  inside : ∀ e ∈ es, "r6/".toList <+: e.name.toList
  once : (es.map ArchiveEntry.name).Nodup
  ordered : es.Pairwise fun e e' => ¬ e'.place <+: e.place ∧
    ∀ folder a b, e.place = folder ++ [a] → e'.place = folder ++ [b] →
      a < b

private theorem entryName_inside (names : List Name) : "r6/".toList <+: entryName names ++ ['/'] ∧
    (names ≠ [] → "r6/".toList <+: entryName names) := by
  by_cases root : names = []
  · rw [root]
    exact ⟨List.prefix_rfl, fun filled => absurd rfl filled⟩
  · have spelled : entryName names = "r6/".toList ++ Text.join '/' (names.map shown) := by
      rw [entryName, Text.join_cons '/' _ (by simpa using root)]
      rfl
    rw [spelled, List.append_assoc]
    exact ⟨List.prefix_append _ _, fun _ => List.prefix_append _ _⟩

theorem contentBelow_eq {content : Content}
    (read : d.status? (pathBelow l.r6Dir names) = some (.file content)) :
    contentBelow d l names = content.data := by
  rw [contentBelow, read]

/-- A file is read where it is. -/
private theorem content_own (order : d.tree.InOrder) (coherent : l.Coherent)
    (opens : d.Opens l.modDir left D) {own content : Content}
    (found : d.tree.find? (folderPlace D ++ names) = some (.file own))
    (read : d.status? (pathBelow l.r6Dir names) = some (.file content)) : content = own := by
  unfold Disk.status? at read
  split at read
  · split at read
    · rename_i place located
      rw [locate_below order coherent opens found (by simp) located, found] at read
      exact (Node.file.inj (Option.some.inj read)).symm
    · cases read
  · cases read

section

variable (order : d.tree.InOrder) (housed : d.tree.find? (folderPlace D) = some .directory)

include order housed

/-- The entries without content are those of directories. -/
private theorem mem_entries_directory {name : String} :
    ⟨name, none⟩ ∈ (inFolder d.tree D).map (entryFor d l) ↔ ∃ names,
      d.tree.find? (folderPlace D ++ names) = some .directory ∧
      name = String.ofList (entryName names ++ ['/']) := by
  constructor
  · intro mem
    obtain ⟨f, inside, eq⟩ := List.mem_map.1 mem
    by_cases directory : f.node = .directory
    · rw [entryFor_directory directory, ArchiveEntry.mk.injEq] at eq
      exact ⟨f.names, directory ▸ (mem_inFolder order housed).1 inside, eq.1.symm⟩
    · rw [entryFor_file directory, ArchiveEntry.mk.injEq] at eq
      cases eq.2
  · rintro ⟨names, found, rfl⟩
    have inside : (⟨names, .directory⟩ : Found) ∈ inFolder d.tree D :=
      (mem_inFolder order housed).2 found
    exact List.mem_map.2 ⟨_, inside, entryFor_directory rfl⟩

/-- The entries with content are those of all else, with what is read there. -/
private theorem mem_entries_file {name : String} {data : List UInt8}
    (reads : ∀ f ∈ inFolder d.tree D, f.node ≠ .directory → IsRead d l f.names) :
    ⟨name, some data⟩ ∈ (inFolder d.tree D).map (entryFor d l) ↔ ∃ names node content,
      d.tree.find? (folderPlace D ++ names) = some node ∧ node ≠ .directory ∧
      d.status? (pathBelow l.r6Dir names) = some (.file content) ∧
      name = String.ofList (entryName names) ∧ data = content.data := by
  constructor
  · intro mem
    obtain ⟨f, inside, eq⟩ := List.mem_map.1 mem
    by_cases directory : f.node = .directory
    · rw [entryFor_directory directory, ArchiveEntry.mk.injEq] at eq
      cases eq.2
    · obtain ⟨content, shown⟩ := reads f inside directory
      rw [entryFor_file directory, ArchiveEntry.mk.injEq, contentBelow_eq shown] at eq
      exact ⟨f.names, f.node, content, (mem_inFolder order housed).1 inside, directory, shown,
        eq.1.symm, (Option.some.inj eq.2).symm⟩
  · rintro ⟨names, node, content, found, real, shown, rfl, rfl⟩
    have inside : (⟨names, node⟩ : Found) ∈ inFolder d.tree D :=
      (mem_inFolder order housed).2 found
    refine List.mem_map.2 ⟨_, inside, ?_⟩
    rw [entryFor_file real, contentBelow_eq shown]

/-- All entries are in the folder `r6`. -/
private theorem entries_inside :
    ∀ e ∈ (inFolder d.tree D).map (entryFor d l), "r6/".toList <+: e.name.toList := by
  intro e mem
  obtain ⟨f, inside, rfl⟩ := List.mem_map.1 mem
  rw [toList_name_entryFor]
  split
  · exact (entryName_inside f.names).1
  · rename_i real
    have filled : f.names ≠ [] := by
      intro root
      have found := (mem_inFolder order housed).1 inside
      rw [root, List.append_nil, housed] at found
      exact real (Option.some.inj found).symm
    rw [List.append_nil]
    exact (entryName_inside f.names).2 filled

end

/-- The places of the entries are in strict order. -/
private theorem entries_sorted (order : d.tree.InOrder)
    (plain : ∀ f ∈ inFolder d.tree D, Plain f.names) :
    ((inFolder d.tree D).map (entryFor d l)).Pairwise fun e e' =>
      List.Lex Tree.NameBefore e.place e'.place := by
  rw [List.pairwise_map]
  refine (inFolder_sorted order).imp_of_mem fun {f g} mem mem' before => ?_
  rw [place_entryFor (plain f mem), place_entryFor (plain g mem')]
  exact .cons before

/-- Entries in strict order have names of their own. -/
private theorem nodup_names
    (sorted : es.Pairwise fun e e' => List.Lex Tree.NameBefore e.place e'.place) :
    (es.map ArchiveEntry.name).Nodup := by
  rw [List.Nodup, List.pairwise_map]
  refine sorted.imp ?_
  intro e e' before same
  have place : e'.place = e.place := by
    rw [ArchiveEntry.place, ArchiveEntry.place, same]
  exact Tree.not_prefix_of_lex before (place ▸ List.prefix_rfl)

private theorem holds_of_entries (order : d.tree.InOrder) (coherent : l.Coherent)
    (opens : d.Opens l.modDir left D) (housed : d.tree.find? (folderPlace D) = some .directory)
    (plain : ∀ names, d.tree.find? (folderPlace D ++ names) ≠ none → ∀ name ∈ names, IsPlain name)
    (read : entries d l = .ok es) : Holds d l D es := by
  obtain ⟨rfl, each⟩ := entries_folder order coherent opens housed plain read
  have sorted := entries_sorted (l := l) order fun f mem => (each f mem).1
  exact
    { first := rfl
      directories := fun name => mem_entries_directory order housed
      files := fun name data => mem_entries_file order housed fun f mem => (each f mem).2
      read := fun names node found real => by
        have inside : (⟨names, node⟩ : Found) ∈ inFolder d.tree D :=
          (mem_inFolder order housed).2 found
        obtain ⟨content, shown⟩ := (each _ inside).2 real
        refine ⟨content, shown, fun own eq => ?_⟩
        rw [eq] at found
        exact content_own order coherent opens found shown
      inside := entries_inside order housed
      once := nodup_names sorted
      ordered := sorted.imp fun before =>
        ⟨Tree.not_prefix_of_lex before, fun folder a b eq eq' => by
          rw [eq, eq'] at before
          exact (Tree.nameBefore_of_lex before).lt⟩ }

/-! ### Unpacking -/

/-- A tree is the folder again: it has the same directories, and files for all else in it. -/
structure Restores (d : Disk) (l : ModLayout) (D : Place) (t : Tree) : Prop where
  directories : ∀ names, t.find? (Text.encodeString ModLayout.r6Name :: names) = some .directory ↔
    d.tree.find? (folderPlace D ++ names) = some .directory
  files : ∀ names node, d.tree.find? (folderPlace D ++ names) = some node → node ≠ .directory →
    ∃ content, d.status? (pathBelow l.r6Dir names) = some (.file content) ∧
      t.find? (Text.encodeString ModLayout.r6Name :: names) = some (.file (.bytes content.data))
  others : ∀ place, place ≠ [] → t.find? place ≠ none →
    ∃ names, place = Text.encodeString ModLayout.r6Name :: names ∧
      d.tree.find? (folderPlace D ++ names) ≠ none

/-- The entries of the folder are unpacked to the folder. -/
private theorem restores_of_entries (order : d.tree.InOrder) (coherent : l.Coherent)
    (opens : d.Opens l.modDir left D) (housed : d.tree.find? (folderPlace D) = some .directory)
    (plain : ∀ names, d.tree.find? (folderPlace D ++ names) ≠ none → ∀ name ∈ names, IsPlain name)
    (read : entries d l = .ok es) :
    ∃ t, Tree.empty.unpackAll es = some t ∧ Restores d l D t := by
  obtain ⟨rfl, each⟩ := entries_folder order coherent opens housed plain read
  have mem_iff : ∀ {f}, f ∈ inFolder d.tree D ↔ _ := fun {f} => mem_inFolder (f := f) order housed
  have nested := nested_inFolder (l := l) order housed fun f mem => (each f mem).1
  have unpacked : ∀ f ∈ inFolder d.tree D,
      (Tree.listing ((inFolder d.tree D).map (entryFor d l))).find?
        (Text.encodeString ModLayout.r6Name :: f.names) =
          some (if f.node = .directory then .directory
          else .file (.bytes (contentBelow d l f.names))) := by
    intro f mem
    rw [← place_entryFor (d := d) (l := l) (each f mem).1, ← node_entryFor (each f mem).1]
    exact nested.find?_listing (List.mem_map_of_mem mem)
  have listed : ∀ place node, place ≠ [] →
      (Tree.listing ((inFolder d.tree D).map (entryFor d l))).find? place = some node →
      ∃ f ∈ inFolder d.tree D, place = Text.encodeString ModLayout.r6Name :: f.names := by
    intro place node root found
    obtain ⟨e, mem, at_place, _⟩ := Tree.mem_of_find?_listing root found
    obtain ⟨f, inside, rfl⟩ := List.mem_map.1 mem
    exact ⟨f, inside, at_place.symm.trans (place_entryFor (each f inside).1)⟩
  refine ⟨_, nested.unpackAll_eq, fun names => ⟨fun found => ?_, fun found => ?_⟩,
    fun names node found real => ?_, fun place root there => ?_⟩
  · obtain ⟨f, inside, same⟩ := listed _ _ (List.cons_ne_nil _ _) found
    obtain rfl := (List.cons.inj same).2
    rw [unpacked f inside] at found
    split at found
    · rename_i directory
      exact directory ▸ mem_iff.1 inside
    · cases found
  · exact (unpacked ⟨names, .directory⟩ (mem_iff.2 found)).trans (if_pos rfl ▸ rfl)
  · have inside : (⟨names, node⟩ : Found) ∈ inFolder d.tree D := mem_iff.2 found
    obtain ⟨content, shown⟩ := (each _ inside).2 real
    have put := unpacked _ inside
    rw [if_neg real, contentBelow_eq shown] at put
    exact ⟨content, shown, put⟩
  · obtain ⟨node, found⟩ := Option.ne_none_iff_exists'.1 there
    obtain ⟨f, inside, same⟩ := listed place node root found
    exact ⟨f.names, same, by simp [mem_iff.1 inside]⟩

/-! ### Main result -/

private theorem Packaged.written (packaged : Packaged d d' l D es) :
    d'.tree.find? (l.entryPlace ".zip" D) = some (.file (.archive es)) := by
  cases packaged with
  | plain _ archived => exact archived.written
  | aside _ moved => exact moved.written

/-- What is in the mod's directory under another name is not in the folder. -/
private theorem not_in_folder {name : Name} (other : name ≠ Text.encodeString ModLayout.r6Name)
    (D : Place) : ¬ folderPlace D <+: D ++ [name] :=
  (Tree.unrelated_of_ne other.symm D).not_below

end Package

open Package in
/-- Where packaging succeeds the archive holds the mod's folder, and unpacked it is the folder
again.  Neither the archive nor the file that it is written to first is in the folder, and what is
read for it is read on the disk on which neither has been written. -/
theorem archive_is_the_folder (d : Disk) (order : d.tree.InOrder) (script archive : Path)
    (d' : Disk) (done : packageMod d script = (.ok archive, d')) (l : ModLayout)
    (laid : ModLayout.ofScript script = .ok l) (D : Place) (located : d.locate l.modDir = .ok D)
    (housed : d.tree.find? (folderPlace D) = some .directory)
    (plain : ∀ names, d.tree.find? (folderPlace D ++ names) ≠ none →
      ∀ name ∈ names, IsPlain name) :
    archive = l.archive ∧
    (∃ es, d'.tree.find? (l.entryPlace ".zip" D) = some (.file (.archive es)) ∧
      Holds d l D es ∧ ∃ t, Tree.empty.unpackAll es = some t ∧ Restores d l D t) ∧
    ¬ folderPlace D <+: l.entryPlace ".zip" D ∧
    ∀ temporary place, openTemporary d l.modDir = .ok (temporary, place) →
      d.tree.find? place = none ∧ ¬ folderPlace D <+: place := by
  have coherent := ModLayout.coherent_of_script laid
  have there : d.tree.find? (D ++ [Text.encodeString ModLayout.r6Name]) ≠ none :=
    housed ▸ Option.some_ne_none _
  have mod_housed := order.directory_of_below (by simp) there
  obtain ⟨left, opens⟩ := Disk.opens_of_locate located mod_housed
  obtain ⟨l', D', es, laid', named, located', read, packaged⟩ := packaged_of_ok order done
  rw [laid] at laid'
  obtain rfl := Except.ok.inj laid'
  rw [located] at located'
  obtain rfl := Except.ok.inj located'
  refine ⟨named, ⟨es, packaged.written, holds_of_entries order coherent opens housed plain read,
    restores_of_entries order coherent opens housed plain read⟩, not_in_folder ?_ D, ?_⟩
  · intro same
    have ends := congrArg List.getLast? same
    rw [ModLayout.entryName, Text.encodeString_append, List.getLast?_append] at ends
    revert ends
    rw [show (Text.encodeString ".zip").getLast? = some 0x70 from rfl, Option.some_or]
    decide
  · intro temporary place opened
    obtain ⟨_, place_of, found, rfl, rfl⟩ := openTemporary_eq_ok opened
    have same : place_of = D := Except.ok.inj (found.locate.symm.trans located)
    rw [same]
    refine ⟨(unused_freshName d l.modDir).find?_new D, not_in_folder ?_ D⟩
    exact (freshName_ne_of_short (by decide)).symm

namespace Package

/-- A mod with a file in it whose name is not text. -/
def unreadableDisk : Disk :=
  { tree := [(placeOf "m", .directory), (placeOf "m/r6", .directory),
      (placeOf "m/r6/scripts", .directory),
      (placeOf "m/r6/scripts" ++ [[0xff]], .file (.ofString "func A() \x7b\x7d"))] }

/-- A mod with a directory in it, and beside it a file whose name goes on with a byte below a
slash. -/
def dashedDisk : Disk :=
  { tree := [(placeOf "m", .directory), (placeOf "m/r6", .directory),
      (placeOf "m/r6/scripts", .directory), (placeOf "m/r6/scripts/a", .directory),
      (placeOf "m/r6/scripts/a-b", .file (.ofString "notes"))] }

/-- A file whose name is not text is unpacked under another name, and entries in one directory are
not always in the order of the bytes of their names. -/
theorem odd_names_are_archived :
    (unreadableDisk.tree.InOrder ∧ (packageMod unreadableDisk blockedScript).1.isOk = true ∧
      ∃ es t,
        (packageMod unreadableDisk blockedScript).2.tree.find? (placeOf "m/m.zip") =
          some (.file (.archive es)) ∧
        Tree.empty.unpackAll es = some t ∧
        t.find? (placeOf "r6/scripts/\ufffd") = some (.file (.ofString "func A() \x7b\x7d")) ∧
        t.find? (placeOf "r6/scripts" ++ [[0xff]]) = none) ∧
    dashedDisk.tree.InOrder ∧ (packageMod dashedDisk blockedScript).1.isOk = true ∧
      ∃ es,
        (packageMod dashedDisk blockedScript).2.tree.find? (placeOf "m/m.zip") =
          some (.file (.archive es)) ∧
        es.map ArchiveEntry.name = ["r6/", "r6/scripts/", "r6/scripts/a/", "r6/scripts/a-b"] ∧
        Text.encodeString "r6/scripts/a-b" < Text.encodeString "r6/scripts/a/" := by
  constructor
  · refine ⟨?_, ?_, [⟨"r6/", none⟩, ⟨"r6/scripts/", none⟩,
        ⟨"r6/scripts/\ufffd", some (Text.encodeString "func A() \x7b\x7d")⟩],
      [(placeOf "r6", .directory), (placeOf "r6/scripts", .directory),
        (placeOf "r6/scripts/\ufffd", .file (.ofString "func A() \x7b\x7d"))], ?_, ?_, ?_, ?_⟩ <;>
      decide +kernel
  · -- The kernel cannot sort the two names that are in one directory here.
    refine ⟨by decide +kernel, by cbv, [⟨"r6/", none⟩, ⟨"r6/scripts/", none⟩,
      ⟨"r6/scripts/a/", none⟩, ⟨"r6/scripts/a-b", some (Text.encodeString "notes")⟩], by cbv, ?_,
      ?_⟩ <;>
      decide +kernel

/-- A mod with a link in its folder to a file beside it. -/
def linkedDisk : Disk :=
  { tree := [(placeOf "m", .directory), (placeOf "m/notes.txt", .file (.ofString "notes")),
      (placeOf "m/r6", .directory), (placeOf "m/r6/scripts", .directory),
      (placeOf "m/r6/scripts/a.txt", .link (.ofString "../../notes.txt"))] }

theorem linked_folder_is_archived :
    linkedDisk.tree.InOrder ∧ (packageMod linkedDisk blockedScript).1.isOk = true ∧
    ∃ es t,
      (packageMod linkedDisk blockedScript).2.tree.find? (placeOf "m/m.zip") =
        some (.file (.archive es)) ∧
      Tree.empty.unpackAll es = some t ∧
      t.find? (placeOf "r6/scripts") = some .directory ∧
      t.find? (placeOf "r6/scripts/a.txt") = some (.file (.ofString "notes")) := by
  let mod : ModLayout := ⟨.ofString "m", .ofString "m/r6", "m"⟩
  have order : linkedDisk.tree.InOrder := by decide +kernel
  have laid : ModLayout.ofScript blockedScript = .ok mod := rfl
  have located : linkedDisk.locate mod.modDir = .ok (placeOf "m") := rfl
  have archive_place : mod.entryPlace ".zip" (placeOf "m") = placeOf "m/m.zip" := by decide +kernel
  have housed : linkedDisk.tree.find? (folderPlace (placeOf "m")) = some .directory := by
    decide +kernel
  have listed : ∀ e ∈ linkedDisk.tree, ∀ name ∈ e.1, IsPlain name := by decide +kernel
  have plain : ∀ names, linkedDisk.tree.find? (folderPlace (placeOf "m") ++ names) ≠ none →
      ∀ name ∈ names, IsPlain name := by
    intro names there name mem
    obtain ⟨node, found⟩ := Option.ne_none_iff_exists'.1 there
    exact listed _ (Tree.mem_of_find? (by simp [folderPlace]) found) name
      (List.mem_append_right _ mem)
  have ok : (packageMod linkedDisk blockedScript).1.isOk = true := by decide +kernel
  obtain ⟨archive, done⟩ := (packageMod_isOk linkedDisk blockedScript).1 ok
  obtain ⟨_, ⟨es, written, _, t, unpacked, restored⟩, _⟩ :=
    archive_is_the_folder linkedDisk order blockedScript archive _ done mod laid (placeOf "m")
      located housed plain
  rw [archive_place] at written
  have inner : placeOf "r6/scripts" = Text.encodeString ModLayout.r6Name :: placeOf "scripts" := by
    decide +kernel
  have innermost : placeOf "r6/scripts/a.txt" =
      Text.encodeString ModLayout.r6Name :: placeOf "scripts/a.txt" := by
    decide +kernel
  have directory : linkedDisk.tree.find? (folderPlace (placeOf "m") ++ placeOf "scripts") =
      some .directory := by decide +kernel
  have link : linkedDisk.tree.find? (folderPlace (placeOf "m") ++ placeOf "scripts/a.txt") =
      some (.link (.ofString "../../notes.txt")) := by decide +kernel
  have shown : linkedDisk.status? (pathBelow mod.r6Dir (placeOf "scripts/a.txt")) =
      some (.file (.ofString "notes")) := by decide +kernel
  obtain ⟨content, read, file⟩ := restored.files _ _ link Node.noConfusion
  rw [shown] at read
  obtain rfl := Node.file.inj (Option.some.inj read)
  refine ⟨order, ok, es, t, written, unpacked, ?_, ?_⟩
  · rw [inner]
    exact (restored.directories _).2 directory
  · rw [innermost, file]
    rfl

end Package

end ModBench
