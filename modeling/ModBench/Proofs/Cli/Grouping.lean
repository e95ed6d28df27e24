import Mathlib.Algebra.Order.Ring.Nat
import Mathlib.Data.List.Induction
import ModBench.Cli.Check
import ModBench.Proofs.Lint.Published

/-!
Grouping of records by file.  The groups of a pass hold each of its records once, under the path
that the record belongs to, and nothing else.  A check groups as a live linter does.
-/

set_option autoImplicit false
set_option relaxedAutoImplicit false

namespace ModBench

/-- Joining keeps absolute names, so that resolving a name is nothing but joining it. -/
private theorem resolveFile_eq_join (base : Path) (r : Record) :
    resolveFile base r = base.join (Path.ofString r.file) := by
  unfold resolveFile Path.join
  dsimp only
  split <;> rfl

theorem Cli.groupByFile_eq_groupRecords (records : List Record) (base : Path) :
    Cli.groupByFile records base = groupRecords base records := by
  simp only [Cli.groupByFile, groupRecords, resolveFile_eq_join]

theorem groupRecords_concat (base : Path) (records : List Record) (r : Record) :
    groupRecords base (records ++ [r]) = addRecord base (groupRecords base records) r :=
  List.foldl_concat ..

namespace PathMap

variable {α : Type}

/-- In a map in path order no two entries have the same path. -/
theorem Sorted.apart {m : PathMap α} (sorted : Sorted m) :
    m.Pairwise fun a b => a.1.same b.1 = false :=
  sorted.imp not_same_of_compare_lt

end PathMap

variable {base : Path} {groups : RecordMap} {r : Record}

/-- Adding a record puts it behind all others, under its own path. -/
private theorem flatMap_addRecord_perm (sorted : PathMap.Sorted groups) :
    ((addRecord base groups r).flatMap Prod.snd).Perm (groups.flatMap Prod.snd ++ [r]) := by
  cases found : groups.find? (resolveFile base r) with
  | none =>
    have added := PathMap.upsert_perm_of_find?_eq_none found fun old => old.getD [] ++ [r]
    exact (added.flatMap_right Prod.snd).trans (List.perm_append_singleton _ _).symm
  | some old =>
    obtain ⟨k, before, later, eq, changed, _⟩ := PathMap.exists_split_of_find? sorted found
    rw [addRecord, changed, eq]
    simp only [List.flatMap_append, List.flatMap_cons, Option.getD_some, List.append_assoc]
    exact (List.Perm.append_left _ (List.Perm.append_left _ List.perm_append_comm))

/-- Each record of a pass is in one group. -/
private theorem flatMap_groupRecords_perm (base : Path) (records : List Record) :
    ((groupRecords base records).flatMap Prod.snd).Perm records := by
  induction records using List.reverseRecOn with
  | nil => exact List.Perm.refl _
  | append_singleton records r ih =>
    rw [groupRecords_concat]
    exact (flatMap_addRecord_perm (tidy_groupRecords base records).sorted).trans
      (ih.append_right [r])

/-- A group stands under the path of one of its records, as that path was spelled. -/
private theorem exists_record_of_mem_groupRecords {records : List Record} {file : FileRecords}
    (mem : file ∈ groupRecords base records) : ∃ r ∈ records, file.1 = resolveFile base r := by
  induction records using List.reverseRecOn generalizing file with
  | nil => cases mem
  | append_singleton records r ih =>
    rw [groupRecords_concat] at mem
    rcases PathMap.key_mem_upsert mem with eq | ⟨old, among, eq⟩
    · exact ⟨r, List.mem_append_right _ List.mem_cons_self, eq⟩
    · obtain ⟨earlier, listed, path⟩ := ih among
      exact ⟨earlier, List.mem_append_left _ listed, eq ▸ path⟩

/-- Publishing a pass makes each path's list of exactly the records that belong to the path, in
their order.  Each record stands in one list, no list is empty, nothing is left of what was
published before, and a check makes the same groups. -/
theorem grouping_keeps_every_record (s : PublishedSet) (records : List Record) (base : Path) :
    let published := s.publish records base
    (∀ p, published.get? p = entry? (recordsFor base records p)) ∧
      (∀ p, published.files.contains p = true ↔
        ∃ r ∈ records, p.same (resolveFile base r) = true) ∧
      (published.files.Pairwise fun one other => one.1.same other.1 = false) ∧
      (∀ file ∈ published.files, file.2 ≠ [] ∧ ∃ r ∈ records, file.1 = resolveFile base r) ∧
      (published.files.flatMap Prod.snd).Perm records ∧
      (published.files.map fun file => file.2.length).sum = records.length ∧
      (∀ earlier : PublishedSet, (earlier.publish records base).files = published.files) ∧
      Cli.groupByFile records base = published.files := by
  intro published
  have tidy := tidy_groupRecords base records
  have whole := flatMap_groupRecords_perm base records
  refine ⟨s.get?_publish records base, fun p => ?_, tidy.sorted.apart,
    fun file mem => ⟨tidy.ne_nil_of_mem mem, exists_record_of_mem_groupRecords mem⟩, whole, ?_,
    fun _ => rfl, Cli.groupByFile_eq_groupRecords records base⟩
  · rw [PathMap.contains, Option.isSome_iff_ne_none]
    exact find?_groupRecords_ne_none_iff
  · rw [← List.length_flatMap]
    exact whole.length_eq

end ModBench
