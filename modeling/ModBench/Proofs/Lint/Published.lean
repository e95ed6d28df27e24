import Mathlib.Data.List.Basic
import ModBench.Lint.Published
import ModBench.Proofs.Path.Map

/-!
Laws of the published set.  What is published for a path after a pass is the list of the pass's
records for that path, in their order.  A path is marked as changed by an operation exactly when the
operation changes what is published for it.
-/

set_option autoImplicit false
set_option relaxedAutoImplicit false

namespace ModBench

open PathMap (Sorted)

/-! ### Grouping -/

/-- The records of a pass that belong to a path, in their order. -/
def recordsFor (base : Path) (records : List Record) (p : Path) : List Record :=
  records.filter fun r => p.same (resolveFile base r)

/-- What a map of records holds for a path that has these records: nothing when there are none. -/
def entry? (records : List Record) : Option (List Record) :=
  if records = [] then none else some records

theorem entry?_of_ne_nil {records : List Record} (filled : records ≠ []) :
    entry? records = some records :=
  if_neg filled

theorem entry?_eq_none_iff {records : List Record} : entry? records = none ↔ records = [] := by
  constructor
  · intro none
    by_contra filled
    rw [entry?_of_ne_nil filled] at none
    cases none
  · rintro rfl
    rfl

/-- Every path stands once, in path order, and has records. -/
structure Tidy (m : RecordMap) : Prop where
  sorted : Sorted m
  filled : ∀ p, m.find? p ≠ some []

namespace Tidy

variable {m : RecordMap}

theorem nil : Tidy [] where
  sorted := List.Pairwise.nil
  filled p found := by cases found

theorem ne_nil_of_mem (tidy : Tidy m) {e : FileRecords} (mem : e ∈ m) : e.2 ≠ [] := by
  intro empty
  have found := PathMap.find?_of_mem tidy.sorted mem (Path.same_refl e.1)
  rw [empty] at found
  exact tidy.filled e.1 found

theorem entry?_getD (tidy : Tidy m) (p : Path) : entry? ((m.find? p).getD []) = m.find? p := by
  cases found : m.find? p with
  | none => rfl
  | some records =>
    have filled : records ≠ [] := by
      rintro rfl
      exact tidy.filled p found
    exact entry?_of_ne_nil filled

theorem upsert (tidy : Tidy m) (p : Path) {f : Option (List Record) → List Record}
    (fills : ∀ old, f old ≠ []) : Tidy (m.upsert p f) where
  sorted := PathMap.sorted_upsert tidy.sorted p f
  filled q found := by
    cases same : q.same p with
    | true =>
      rw [PathMap.find?_upsert_of_same tidy.sorted same] at found
      exact fills _ (Option.some.inj found)
    | false =>
      rw [PathMap.find?_upsert_of_not_same same] at found
      exact tidy.filled q found

theorem insert (tidy : Tidy m) (p : Path) {records : List Record} (filled : records ≠ []) :
    Tidy (m.insert p records) :=
  tidy.upsert p fun _ => filled

theorem erase (tidy : Tidy m) (p : Path) : Tidy (m.erase p) where
  sorted := PathMap.sorted_erase tidy.sorted p
  filled q found := by
    cases same : q.same p with
    | true =>
      rw [PathMap.find?_erase_of_same same] at found
      cases found
    | false =>
      rw [PathMap.find?_erase_of_not_same same] at found
      exact tidy.filled q found

end Tidy

/-- The groups with one more record. -/
def addRecord (base : Path) (groups : RecordMap) (r : Record) : RecordMap :=
  groups.upsert (resolveFile base r) fun old => old.getD [] ++ [r]

private theorem foldl_addRecord (base : Path) (records : List Record) {groups : RecordMap}
    (tidy : Tidy groups) :
    Tidy (records.foldl (addRecord base) groups) ∧
      ∀ p, (records.foldl (addRecord base) groups).find? p =
        entry? ((groups.find? p).getD [] ++ recordsFor base records p) := by
  induction records generalizing groups with
  | nil =>
    refine ⟨tidy, fun p => ?_⟩
    rw [recordsFor, List.filter_nil, List.append_nil, tidy.entry?_getD]
    rfl
  | cons r rest ih =>
    have tidy' : Tidy (addRecord base groups r) := tidy.upsert (resolveFile base r)
      fun old => List.append_ne_nil_of_right_ne_nil _ (List.cons_ne_nil r [])
    obtain ⟨kept, found⟩ := ih tidy'
    refine ⟨kept, fun p => ?_⟩
    rw [List.foldl_cons, found, addRecord]
    cases same : p.same (resolveFile base r) with
    | true =>
      rw [PathMap.find?_upsert_of_same tidy.sorted same]
      simp [recordsFor, same]
    | false =>
      rw [PathMap.find?_upsert_of_not_same same]
      simp [recordsFor, same]

theorem tidy_groupRecords (base : Path) (records : List Record) :
    Tidy (groupRecords base records) :=
  (foldl_addRecord base records .nil).1

/-- A pass groups to the lists of its records, path by path. -/
theorem find?_groupRecords (base : Path) (records : List Record) (p : Path) :
    (groupRecords base records).find? p = entry? (recordsFor base records p) :=
  (foldl_addRecord base records .nil).2 p

/-- Records stand under the paths that they belong to, and only there. -/
theorem find?_groupRecords_ne_none_iff {base : Path} {records : List Record} {p : Path} :
    (groupRecords base records).find? p ≠ none ↔
      ∃ r ∈ records, p.same (resolveFile base r) = true := by
  rw [find?_groupRecords, ne_eq, entry?_eq_none_iff, recordsFor, List.filter_eq_nil_iff]
  push Not
  rfl

/-! ### Marks -/

namespace PublishedSet

theorem contains_mark {marks : PathMap Unit} (sorted : Sorted marks) (p q : Path) :
    (mark q marks).contains p = (p.same q || marks.contains p) := by
  cases same : p.same q with
  | true => simp [PathMap.contains, mark, PathMap.find?_insert_of_same sorted same]
  | false => simp [PathMap.contains, mark, PathMap.find?_insert_of_not_same same]

/-- Whether a path is marked as changed since the last taking. -/
def isMarked (s : PublishedSet) (p : Path) : Bool :=
  s.changed.contains p

theorem sorted_mark {marks : PathMap Unit} (sorted : Sorted marks) (p : Path) :
    Sorted (mark p marks) :=
  PathMap.sorted_insert sorted p ()

theorem markDifferent_cons (e : FileRecords) (rest other : RecordMap) (marks : PathMap Unit) :
    markDifferent (e :: rest) other marks =
      markDifferent rest other (if other.find? e.1 = some e.2 then marks else mark e.1 marks) :=
  rfl

/-- The paths marked are those with an entry that the other map does not have. -/
private theorem markDifferent_spec (one other : RecordMap) {marks : PathMap Unit}
    (sorted : Sorted marks) :
    Sorted (markDifferent one other marks) ∧
      ∀ p, (markDifferent one other marks).contains p = true ↔
        marks.contains p = true ∨
          ∃ e ∈ one, p.same e.1 = true ∧ other.find? e.1 ≠ some e.2 := by
  induction one generalizing marks with
  | nil => exact ⟨sorted, fun p => by simp [markDifferent]⟩
  | cons e rest ih =>
    rw [markDifferent_cons]
    by_cases same : other.find? e.1 = some e.2
    · obtain ⟨kept, marked⟩ := ih sorted
      rw [if_pos same]
      refine ⟨kept, fun p => ?_⟩
      rw [marked]
      simp [same]
    · obtain ⟨kept, marked⟩ := ih (sorted_mark sorted e.1)
      rw [if_neg same]
      refine ⟨kept, fun p => ?_⟩
      rw [marked, contains_mark sorted]
      simp only [Bool.or_eq_true, List.exists_mem_cons_iff, ne_eq, same, not_false_eq_true,
        and_true]
      tauto

theorem sorted_markDifferent (one other : RecordMap) {marks : PathMap Unit}
    (sorted : Sorted marks) : Sorted (markDifferent one other marks) :=
  (markDifferent_spec one other sorted).1

private theorem contains_markDifferent {one : RecordMap} (tidy : Tidy one) (other : RecordMap)
    {marks : PathMap Unit} (sorted : Sorted marks) (p : Path) :
    (markDifferent one other marks).contains p = true ↔
      marks.contains p = true ∨ one.find? p ≠ none ∧ other.find? p ≠ one.find? p := by
  rw [(markDifferent_spec one other sorted).2]
  refine or_congr_right ⟨?_, ?_⟩
  · rintro ⟨e, mem, same, differ⟩
    have found := PathMap.find?_of_mem tidy.sorted mem same
    rw [PathMap.find?_congr same other, found]
    exact ⟨by simp, differ⟩
  · rintro ⟨present, differ⟩
    obtain ⟨records, found⟩ := Option.ne_none_iff_exists'.1 present
    obtain ⟨q, same, mem⟩ := PathMap.exists_mem_of_find? found
    refine ⟨(q, records), mem, same, ?_⟩
    rw [← PathMap.find?_congr same other, ← found]
    exact differ

/-! ### Operations -/

/-- What can be done to a published set. -/
inductive Update where
  | publish (records : List Record) (base : Path)
  | clear (p : Path)
  | clearAll
  | take

def update (s : PublishedSet) : Update → PublishedSet
  | .publish records base => s.publish records base
  | .clear p => s.clear p
  | .clearAll => s.clearAll
  | .take => s.takeChanges.2

def after (s : PublishedSet) (updates : List Update) : PublishedSet :=
  updates.foldl update s

/-- The published files and the marks are maps in order, and no file has an empty list. -/
structure Kept (s : PublishedSet) : Prop where
  files : Tidy s.files
  changed : Sorted s.changed

theorem kept_empty : empty.Kept where
  files := .nil
  changed := List.Pairwise.nil

theorem get?_publish (s : PublishedSet) (records : List Record) (base p : Path) :
    (s.publish records base).get? p = entry? (recordsFor base records p) :=
  find?_groupRecords base records p

/-- Taking every file out is a pass that found nothing. -/
theorem clearAll_eq_publish (s : PublishedSet) (base : Path) : s.clearAll = s.publish [] base := by
  have marks : ∀ (files : RecordMap) (marks : PathMap Unit),
      files.foldl (fun marks (e : FileRecords) => mark e.1 marks) marks =
        markDifferent files [] marks := by
    intro files
    induction files with
    | nil => exact fun _ => rfl
    | cons e rest ih => exact fun marks => ih (mark e.1 marks)
  exact congrArg (PublishedSet.mk []) (marks s.files s.changed)

theorem clear_of_none {s : PublishedSet} {p : Path} (none : s.get? p = none) : s.clear p = s := by
  have absent : s.files.contains p = false := by
    have found : s.files.find? p = Option.none := none
    simp [PathMap.contains, found]
  exact if_neg (by simp [absent])

theorem clear_of_some {s : PublishedSet} {p : Path} {records : List Record}
    (found : s.get? p = some records) :
    s.clear p = { files := s.files.erase p, changed := mark p s.changed } := by
  have present : s.files.contains p = true := by
    have found' : s.files.find? p = some records := found
    simp [PathMap.contains, found']
  exact if_pos present

theorem get?_clear_of_same (s : PublishedSet) {p q : Path} (same : p.same q = true) :
    (s.clear q).get? p = none := by
  have alike : s.get? p = s.get? q := PathMap.find?_congr same s.files
  cases found : s.get? q with
  | none => rw [clear_of_none found, alike, found]
  | some records =>
    rw [clear_of_some found]
    exact PathMap.find?_erase_of_same same s.files

theorem get?_clear_of_not_same (s : PublishedSet) {p q : Path} (apart : p.same q = false) :
    (s.clear q).get? p = s.get? p := by
  cases found : s.get? q with
  | none => rw [clear_of_none found]
  | some records =>
    rw [clear_of_some found]
    exact PathMap.find?_erase_of_not_same apart s.files

theorem get?_clear_of_none {s : PublishedSet} {p : Path} (none : s.get? p = none) (q : Path) :
    (s.clear q).get? p = Option.none := by
  cases same : p.same q with
  | true => exact get?_clear_of_same s same
  | false => rw [get?_clear_of_not_same s same, none]

namespace Kept

variable {s : PublishedSet}

private theorem publish (kept : s.Kept) (records : List Record) (base : Path) :
    (s.publish records base).Kept where
  files := tidy_groupRecords base records
  changed := sorted_markDifferent _ _ (sorted_markDifferent _ _ kept.changed)

private theorem clear (kept : s.Kept) (p : Path) : (s.clear p).Kept := by
  cases found : s.get? p with
  | none =>
    rw [clear_of_none found]
    exact kept
  | some records =>
    rw [clear_of_some found]
    exact ⟨kept.files.erase p, sorted_mark kept.changed p⟩

/-- Every operation keeps the maps in order. -/
theorem update (kept : s.Kept) (u : Update) : (s.update u).Kept := by
  cases u with
  | publish records base => exact kept.publish records base
  | clear p => exact kept.clear p
  | clearAll =>
    have cleared := kept.publish [] .empty
    rw [← clearAll_eq_publish] at cleared
    exact cleared
  | take => exact ⟨kept.files, List.Pairwise.nil⟩

theorem after (kept : s.Kept) (updates : List Update) : (s.after updates).Kept := by
  induction updates generalizing s with
  | nil => exact kept
  | cons u rest ih => exact ih (kept.update u)

private theorem isMarked_publish (kept : s.Kept) (records : List Record) (base p : Path) :
    (s.publish records base).isMarked p = true ↔
      s.isMarked p = true ∨ (s.publish records base).get? p ≠ s.get? p := by
  have inner := contains_markDifferent kept.files (groupRecords base records) kept.changed p
  have outer := contains_markDifferent (tidy_groupRecords base records) s.files
    (sorted_markDifferent s.files (groupRecords base records) kept.changed) p
  refine outer.trans ?_
  rw [inner, or_assoc]
  refine or_congr_right ?_
  have new : (s.publish records base).get? p = (groupRecords base records).find? p := rfl
  have old : s.get? p = s.files.find? p := rfl
  rw [new, old]
  constructor
  · rintro (⟨_, differ⟩ | ⟨_, differ⟩)
    · exact differ
    · exact differ.symm
  · intro differ
    -- Of two values that differ, one is there.
    by_cases before : s.files.find? p = none
    · rw [before] at differ ⊢
      exact Or.inr ⟨differ, differ.symm⟩
    · exact Or.inl ⟨before, differ⟩

theorem isMarked_clear (kept : s.Kept) (q p : Path) :
    (s.clear q).isMarked p = true ↔
      s.isMarked p = true ∨ (s.clear q).get? p ≠ s.get? p := by
  cases found : s.get? q with
  | none => simp [clear_of_none found]
  | some records =>
    have marked : (s.clear q).isMarked p = (p.same q || s.isMarked p) := by
      rw [clear_of_some found]
      exact contains_mark kept.changed p q
    rw [marked]
    cases same : p.same q with
    | true =>
      have present : s.get? p = some records := (PathMap.find?_congr same s.files).trans found
      simp [get?_clear_of_same s same, present]
    | false => simp [get?_clear_of_not_same s same]

/-- An operation marks the paths whose list it changes, and only taking the changes takes marks
away. -/
theorem isMarked_update (kept : s.Kept) {u : Update} (keeps : u ≠ .take) (p : Path) :
    (s.update u).isMarked p = true ↔
      s.isMarked p = true ∨ (s.update u).get? p ≠ s.get? p := by
  cases u with
  | publish records base => exact kept.isMarked_publish records base p
  | clear q => exact kept.isMarked_clear q p
  | clearAll =>
    have marked := kept.isMarked_publish [] .empty p
    rw [← clearAll_eq_publish] at marked
    exact marked
  | take => exact absurd rfl keeps

end Kept

end PublishedSet

end ModBench
