import ModBench.Files.Walk
import ModBench.Proofs.Files.Tree

/-!
Unpacking archives.  Entries are unpacked in their order into an empty tree; each needs its
directory to be there and its own place to be free.  Where every directory comes before what is in
it and no place comes twice, the unpacked tree lists the entries.
-/

set_option autoImplicit false
set_option relaxedAutoImplicit false

namespace ModBench.Files

namespace ArchiveEntry

/-- Where an entry is unpacked to. -/
def place (e : ArchiveEntry) : Place :=
  stepsOf (.ofString e.name)

/-- What an entry is unpacked to: a directory if its name ends in a slash. -/
def node (e : ArchiveEntry) : Node :=
  if endsInSlash (.ofString e.name) then .directory else .file (.bytes (e.body.getD []))

end ArchiveEntry

namespace Tree

def unpack (t : Tree) (e : ArchiveEntry) : Option Tree :=
  if t.find? e.place.dropLast = some .directory ∧ t.find? e.place = none then
    some (t.put e.place e.node)
  else none

def unpackAll (t : Tree) (entries : List ArchiveEntry) : Option Tree :=
  entries.foldlM unpack t

/-- What entries are when all of them are unpacked. -/
def listing (entries : List ArchiveEntry) : Tree :=
  entries.map fun e => (e.place, e.node)

/-- Each entry has a place of its own, and its directory comes before it. -/
inductive Nested : List ArchiveEntry → Prop
  | nil : Nested []
  | snoc {before : List ArchiveEntry} {e : ArchiveEntry} (nested : Nested before)
    (filled : e.place ≠ []) (new : e.place ∉ before.map ArchiveEntry.place)
    (housed : e.place.dropLast = [] ∨
      ∃ folder ∈ before, folder.place = e.place.dropLast ∧ folder.node = .directory) :
    Nested (before ++ [e])

variable {entries : List ArchiveEntry}

/-- Nothing but the entries is found in the listing. -/
theorem mem_of_find?_listing {place : Place} {node : Node} (root : place ≠ [])
    (found : (listing entries).find? place = some node) :
    ∃ e ∈ entries, e.place = place ∧ e.node = node := by
  obtain ⟨e, mem, eq⟩ := List.mem_map.1 (mem_of_find? root found)
  obtain ⟨rfl, rfl⟩ := Prod.mk.inj eq
  exact ⟨e, mem, rfl, rfl⟩

namespace Nested

private theorem filled (nested : Nested entries) : ∀ e ∈ entries, e.place ≠ [] := by
  induction nested with
  | nil => simp
  | snoc _ filled _ _ ih =>
    intro e mem
    rcases List.mem_append.1 mem with mem | mem
    · exact ih e mem
    · rwa [List.mem_singleton.1 mem]

private theorem once (nested : Nested entries) : ((listing entries).map Prod.fst).Nodup := by
  have places : ∀ es : List ArchiveEntry,
      (listing es).map Prod.fst = es.map ArchiveEntry.place := by
    simp [listing]
  rw [places]
  induction nested with
  | nil => exact List.nodup_nil
  | snoc _ _ new _ ih =>
    rw [List.map_append, List.nodup_append]
    refine ⟨ih, by simp, fun place here other there same => new ?_⟩
    rw [List.mem_singleton.1 there] at same
    exact same ▸ here

/-- In the listing every entry is found at its place. -/
theorem find?_listing (nested : Nested entries) {e : ArchiveEntry} (mem : e ∈ entries) :
    (listing entries).find? e.place = some e.node :=
  find?_of_once nested.once (nested.filled e mem) (List.mem_map.2 ⟨e, mem, rfl⟩)

/-- All entries can be unpacked, and the unpacked tree lists them. -/
theorem unpackAll_eq (nested : Nested entries) :
    empty.unpackAll entries = some (listing entries) := by
  induction nested with
  | nil => rfl
  | @snoc before e earlier filled new housed ih =>
    have there : (listing before).find? e.place.dropLast = some .directory := by
      rcases housed with root | ⟨folder, mem, place, directory⟩
      · rw [root]
        rfl
      · rw [← place, earlier.find?_listing mem, directory]
    have fresh : ∀ entry ∈ listing before, entry.1 ≠ e.place := by
      intro entry mem same
      obtain ⟨other, inside, rfl⟩ := List.mem_map.1 mem
      exact new (List.mem_map.2 ⟨other, inside, same⟩)
    have free : (listing before).find? e.place = none := (find?_eq_none_iff filled).2 fresh
    have grown : (listing before).put e.place e.node = listing (before ++ [e]) := by
      rw [put_of_new filled fresh, listing, listing, List.map_append]
      rfl
    rw [unpackAll] at ih
    rw [unpackAll, List.foldlM_append, ih, ← grown]
    simp [unpack, there, free]

end Nested

end Tree

end ModBench.Files
