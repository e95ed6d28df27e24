import Mathlib.Data.List.Pairwise
import ModBench.Diagnostic.Snapshot
import ModBench.Proofs.Path.Map

/-!
Snapshots do not depend on the order in which files are handed over.  The order in which files are
shown is strict on files with different paths, so that there is one way to show them.
-/

set_option autoImplicit false
set_option relaxedAutoImplicit false

namespace ModBench

open Std

namespace Snapshot

/-- No two of the files have the same path. -/
def Apart (files : List FileRecords) : Prop :=
  files.Pairwise fun a b => a.1.same b.1 = false

instance : Symm fun a b : FileRecords => a.1.same b.1 = false where
  symm a b other := by rwa [Path.same_comm]

/-- One of the file's records is an error. -/
def Failing (file : FileRecords) : Prop :=
  ∃ r ∈ file.2, r.severity = .error

/-- Files with an error come first, and each of the two parts is in strict path order. -/
def Arranged (files : List FileRecords) : Prop :=
  ∃ failing clean, files = failing ++ clean ∧ (∀ file ∈ failing, Failing file) ∧
    (∀ file ∈ clean, ¬ Failing file) ∧ PathMap.Sorted failing ∧ PathMap.Sorted clean

/-! ### The order of files -/

theorem hasError_iff {file : FileRecords} : hasError file = true ↔ Failing file := by
  have isError_iff : ∀ s : Severity, s.isError = true ↔ s = .error := by
    intro s
    cases s <;> decide
  simp only [hasError, List.any_eq_true, isError_iff, Failing]

def order : FileRecords → FileRecords → Ordering :=
  compareLex (compareOn fun file => !hasError file) fun a b => a.1.compare b.1

instance : TransCmp fun a b : FileRecords => a.1.compare b.1 :=
  Component.transCmp_comap Prod.fst Path.compare

instance : TransCmp order :=
  inferInstanceAs (TransCmp (compareLex _ _))

theorem order_eq (a b : FileRecords) :
    order a b = (compare (!hasError a) (!hasError b)).then (a.1.compare b.1) := rfl

private theorem precedes_eq (a b : FileRecords) : precedes a b = (order a b).isLE := by
  rw [order_eq, precedes]
  cases hasError a <;> cases hasError b <;> cases a.1.compare b.1 <;> rfl

private theorem order_eq_lt_iff {a b : FileRecords} : order a b = .lt ↔
    (Failing a ∧ ¬ Failing b) ∨ ((Failing a ↔ Failing b) ∧ a.1.compare b.1 = .lt) := by
  have first : compare false true = Ordering.lt := rfl
  rw [order_eq, ← hasError_iff, ← hasError_iff, Ordering.then_eq_lt]
  cases hasError a <;> cases hasError b <;> simp [first]

/-- Files in strict order, cut where the first file without an error stands. -/
theorem arranged_iff {files : List FileRecords} :
    Arranged files ↔ files.Pairwise fun a b => order a b = .lt := by
  constructor
  · rintro ⟨failing, clean, rfl, fails, passes, first, second⟩
    refine List.pairwise_append.2 ⟨first.imp_of_mem ?_, second.imp_of_mem ?_, ?_⟩
    · intro a b here there before
      exact order_eq_lt_iff.2 (.inr ⟨iff_of_true (fails a here) (fails b there), before⟩)
    · intro a b here there before
      exact order_eq_lt_iff.2 (.inr ⟨iff_of_false (passes a here) (passes b there), before⟩)
    · intro a here b there
      exact order_eq_lt_iff.2 (.inl ⟨fails a here, passes b there⟩)
  · intro ordered
    induction ordered with
    | nil => exact ⟨[], [], rfl, by simp, by simp, .nil, .nil⟩
    | @cons file files before ordered ih =>
      obtain ⟨failing, clean, rfl, fails, passes, first, second⟩ := ih
      by_cases fail : Failing file
      · refine ⟨file :: failing, clean, rfl, List.forall_mem_cons.2 ⟨fail, fails⟩, passes, ?_,
          second⟩
        refine List.pairwise_cons.2 ⟨fun other mem => ?_, first⟩
        rcases order_eq_lt_iff.1 (before other (List.mem_append_left _ mem)) with ends | same
        · exact absurd (fails other mem) ends.2
        · exact same.2
      · -- Nothing behind a file without an error has one.
        have none : failing = [] := by
          refine List.eq_nil_iff_forall_not_mem.2 fun other mem => ?_
          rcases order_eq_lt_iff.1 (before other (List.mem_append_left _ mem)) with begins | same
          · exact fail begins.1
          · exact fail (same.1.2 (fails other mem))
        subst none
        refine ⟨[], file :: clean, rfl, by simp, List.forall_mem_cons.2 ⟨fail, passes⟩, .nil, ?_⟩
        refine List.pairwise_cons.2 ⟨fun other mem => ?_, second⟩
        rcases order_eq_lt_iff.1 (before other mem) with begins | same
        · exact absurd begins.1 fail
        · exact same.2

/-- There is one way to arrange files. -/
private theorem Arranged.unique {files files' : List FileRecords} (arranged : Arranged files)
    (arranged' : Arranged files') (perm : files.Perm files') : files = files' := by
  refine perm.eq_of_pairwise (fun a b _ _ before after => ?_) (arranged_iff.1 arranged)
    (arranged_iff.1 arranged')
  cases (OrientedCmp.gt_of_lt before).symm.trans after

/-! ### What a snapshot shows -/

variable {files : List FileRecords}

/-- The files that have records. -/
def filled (files : List FileRecords) : List FileRecords :=
  files.filter fun file => file.2 ≠ []

theorem ofFiles_perm (files : List FileRecords) : (ofFiles files).files.Perm (filled files) := by
  have same : filled files = files.filter fun file => !file.2.isEmpty :=
    List.filter_congr fun file _ => by cases file.2 <;> rfl
  rw [same]
  exact List.mergeSort_perm _ precedes

theorem Apart.of_perm {files' : List FileRecords} (apart : Apart files)
    (perm : files.Perm files') : Apart files' :=
  (perm.pairwise_iff fun {a b} => Symm.symm a b).1 apart

/-- Each file is shown once. -/
theorem apart_ofFiles (apart : Apart files) : Apart (ofFiles files).files :=
  Apart.of_perm (List.Pairwise.filter _ apart) (ofFiles_perm files).symm

private theorem arranged_ofFiles (apart : Apart files) : Arranged (ofFiles files).files := by
  have sorted : (ofFiles files).files.Pairwise fun a b => precedes a b = true := by
    refine List.pairwise_mergeSort (fun a b c first second => ?_) (fun a b => ?_) _
    · rw [precedes_eq] at *
      exact TransCmp.isLE_trans first second
    · have turned : order b a = (order a b).swap := OrientedCmp.eq_swap
      rw [precedes_eq, precedes_eq, turned]
      cases order a b <;> rfl
  refine arranged_iff.2 ((sorted.and (apart_ofFiles apart)).imp fun {a b} ⟨before, other⟩ => ?_)
  rw [precedes_eq] at before
  cases decided : order a b with
  | lt => rfl
  | eq =>
    rw [Path.compare_eq_iff.1 (compareLex_eq_eq.1 decided).2] at other
    cases other
  | gt =>
    rw [decided] at before
    cases before

/-- What is got for a path is what is shown under it. -/
private theorem get?_eq_some_iff {s : Snapshot} (apart : Apart s.files) {p : Path}
    {records : List Record} :
    s.get? p = some records ↔ ∃ file ∈ s.files, file.1.same p = true ∧ file.2 = records := by
  rw [get?, Option.map_eq_some_iff]
  constructor
  · rintro ⟨file, found, eq⟩
    exact ⟨file, List.mem_of_find?_eq_some found, by simpa using List.find?_some found, eq⟩
  · rintro ⟨file, mem, same, eq⟩
    have some_file : ∃ other ∈ s.files, other.1.same p = true := ⟨file, mem, same⟩
    obtain ⟨other, found⟩ := Option.isSome_iff_exists.1 (List.find?_isSome.2 some_file)
    have same' : other.1.same p = true := by simpa using List.find?_some found
    have one : other = file := by
      by_contra differ
      have apart' := apart.forall (List.mem_of_find?_eq_some found) mem differ
      rw [Path.same_congr same', Path.same_comm, same] at apart'
      cases apart'
    exact ⟨other, found, one ▸ eq⟩

theorem get?_ofFiles (apart : Apart files) {p : Path} {records : List Record} :
    (ofFiles files).get? p = some records ↔
      records ≠ [] ∧ ∃ file ∈ files, file.1.same p = true ∧ file.2 = records := by
  simp only [get?_eq_some_iff (apart_ofFiles apart), (ofFiles_perm files).mem_iff, filled,
    List.mem_filter, decide_eq_true_eq]
  constructor
  · rintro ⟨file, ⟨mem, some_record⟩, same, rfl⟩
    exact ⟨some_record, file, mem, same, rfl⟩
  · rintro ⟨some_record, file, mem, same, rfl⟩
    exact ⟨file, ⟨mem, some_record⟩, same, rfl⟩

/-! ### Counts -/

private theorem counts_eq_total (s : Snapshot) :
    s.count .error + s.count .warning + s.count .info = s.total := by
  unfold count total
  induction s.records with
  | nil => rfl
  | cons r records ih =>
    simp only [List.countP_cons, List.length_cons, ← ih]
    cases r.severity <;> simp <;> omega

private theorem records_ofFiles_perm (files : List FileRecords) :
    (ofFiles files).records.Perm (files.flatMap Prod.snd) := by
  refine ((ofFiles_perm files).flatMap_right _).trans (List.Perm.of_eq ?_)
  induction files with
  | nil => rfl
  | cons file files ih =>
    unfold filled at ih ⊢
    by_cases none : file.2 = []
    · rw [List.filter_cons_of_neg (by simp [none]), List.flatMap_cons, none, ih, List.nil_append]
    · rw [List.filter_cons_of_pos (by simp [none]), List.flatMap_cons, List.flatMap_cons, ih]

/-- A snapshot shows the files that have records, each once, those with an error first and each part
in path order.  There is only one way to show them so, whatever the order in which the files were
handed over; what was handed over for a path is got for it, and every record is counted once. -/
theorem snapshot_is_canonical (files : List FileRecords) (apart : Apart files) :
    (ofFiles files).files.Perm (filled files) ∧ Arranged (ofFiles files).files ∧
      (∀ listed, listed.Perm (filled files) → Arranged listed → ofFiles files = ⟨listed⟩) ∧
      (∀ other, other.Perm files → ofFiles other = ofFiles files) ∧
      (∀ p records, (ofFiles files).get? p = some records ↔
        records ≠ [] ∧ ∃ file ∈ files, file.1.same p = true ∧ file.2 = records) ∧
      (∀ p, (ofFiles files).contains p = true ↔
        ∃ file ∈ files, file.1.same p = true ∧ file.2 ≠ []) ∧
      (ofFiles files).count .error + (ofFiles files).count .warning +
        (ofFiles files).count .info = (ofFiles files).total ∧
      (ofFiles files).total = (files.flatMap Prod.snd).length := by
  have perm := ofFiles_perm files
  have arranged := arranged_ofFiles apart
  have only : ∀ listed, listed.Perm (filled files) → Arranged listed →
      ofFiles files = ⟨listed⟩ := by
    intro listed perm' arranged'
    exact congrArg Snapshot.mk (arranged.unique arranged' (perm.trans perm'.symm))
  refine ⟨perm, arranged, only, fun other shuffled => ?_, fun p records => get?_ofFiles apart,
    fun p => ?_, counts_eq_total _, ?_⟩
  · have apart' : Apart other := apart.of_perm shuffled.symm
    exact (only _ ((ofFiles_perm other).trans (shuffled.filter _)) (arranged_ofFiles apart')).symm
  · rw [contains, Option.isSome_iff_exists]
    constructor
    · rintro ⟨records, got⟩
      obtain ⟨some_record, file, mem, same, rfl⟩ := (get?_ofFiles apart).1 got
      exact ⟨file, mem, same, some_record⟩
    · rintro ⟨file, mem, same, some_record⟩
      exact ⟨file.2, (get?_ofFiles apart).2 ⟨some_record, file, mem, same, rfl⟩⟩
  · rw [total, (records_ofFiles_perm files).length_eq]

private def problem (severity : Severity) : Record :=
  ⟨"x.reds", 1, 1, "m", severity⟩

private def failingFile : FileRecords :=
  (.ofString "/ws/c.reds", [problem .info, problem .error])

private def warnedFile : FileRecords :=
  (.ofString "/ws//b.reds", [problem .warning])

private def notedFile : FileRecords :=
  (.ofString "/ws/a.reds", [problem .info])

private def spotlessFile : FileRecords :=
  (.ofString "/ws/d.reds", [])

/-- The file with an error comes first though its path is the last one, the file without records is
left out, and a file is found under another spelling of its path. -/
theorem four_files_in_order :
    Apart [spotlessFile, warnedFile, failingFile, notedFile] ∧
      ofFiles [spotlessFile, warnedFile, failingFile, notedFile] =
        ⟨[failingFile, notedFile, warnedFile]⟩ ∧
      ofFiles [notedFile, failingFile, warnedFile, spotlessFile] =
        ⟨[failingFile, notedFile, warnedFile]⟩ ∧
      (ofFiles [spotlessFile, warnedFile, failingFile, notedFile]).get?
        (.ofString "/ws/./b.reds") = some [problem .warning] ∧
      (ofFiles [spotlessFile, warnedFile, failingFile, notedFile]).total = 4 := by
  have apart : Apart [spotlessFile, warnedFile, failingFile, notedFile] := by
    unfold Apart
    decide +kernel
  obtain ⟨_, _, only, shuffled, got, _, _, total⟩ := snapshot_is_canonical _ apart
  have arranged : Arranged [failingFile, notedFile, warnedFile] := by
    refine ⟨[failingFile], [notedFile, warnedFile], rfl, ?_, ?_, ?_, ?_⟩
    · simp only [← hasError_iff]
      decide
    · simp only [← hasError_iff]
      decide
    · unfold PathMap.Sorted
      decide
    · unfold PathMap.Sorted
      decide
  have shown := only _ (by decide) arranged
  refine ⟨apart, shown, ?_, (got _ _).2 ⟨by simp, warnedFile, by simp, by decide, rfl⟩, total⟩
  rw [← shown]
  exact shuffled _ (by decide)

end Snapshot

end ModBench
