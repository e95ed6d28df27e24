import Mathlib.Data.List.Induction
import ModBench.Proofs.Lint.Published

/-!
The change feed.  A host that shows diagnostics keeps a copy of the published files.  It starts with
nothing and follows every list of changes that it takes; after each taking its copy is what is
published.
-/

set_option autoImplicit false
set_option relaxedAutoImplicit false

namespace ModBench

/-- The place at which a list is split is its end or lies before it. -/
theorem split_concat {α : Type} {all before later : List α} {u v : α}
    (eq : all ++ [u] = before ++ v :: later) :
    (all = before ∧ u = v ∧ later = []) ∨
      ∃ rest, later = rest ++ [u] ∧ all = before ++ v :: rest := by
  rcases List.eq_nil_or_concat later with rfl | ⟨rest, w, rfl⟩
  · obtain ⟨rfl, last⟩ := List.append_inj' eq rfl
    exact Or.inl ⟨rfl, List.singleton_inj.1 last, rfl⟩
  · have eq' : all ++ [u] = (before ++ v :: rest) ++ [w] := by simpa using eq
    obtain ⟨rfl, last⟩ := List.append_inj' eq' rfl
    exact Or.inr ⟨rest, by simp [List.singleton_inj.1 last], rfl⟩

namespace PublishedSet

open PathMap (Sorted)

/-- A host stores the records of a changed path, and forgets the path when there are none. -/
def follow (copy : RecordMap) (change : FileRecords) : RecordMap :=
  if change.2 = [] then copy.erase change.1 else copy.insert change.1 change.2

def followAll (copy : RecordMap) (changes : List FileRecords) : RecordMap :=
  changes.foldl follow copy

/-- The lists that are returned by the takings among some operations. -/
def feed (s : PublishedSet) : List Update → List (List FileRecords)
  | [] => []
  | .take :: rest => s.takeChanges.1 :: s.takeChanges.2.feed rest
  | u :: rest => (s.update u).feed rest

/-- The copy of a host that was there from the beginning. -/
def copyAfter (updates : List Update) : RecordMap :=
  (empty.feed updates).foldl followAll []

/-- Some operation after the last taking changed what is published for the path. -/
def ChangedSinceTaking (updates : List Update) (p : Path) : Prop :=
  ∃ before u later, updates = before ++ u :: later ∧ (∀ v ∈ later, v ≠ .take) ∧
    (empty.after before).get? p ≠ (empty.after (before ++ [u])).get? p

/-! ### Following changes -/

private theorem find?_follow {copy : RecordMap} (tidy : Tidy copy) {p : Path} {change : FileRecords}
    (same : p.same change.1 = true) : (follow copy change).find? p = entry? change.2 := by
  unfold follow entry?
  split
  · exact PathMap.find?_erase_of_same same copy
  · exact PathMap.find?_insert_of_same tidy.sorted same change.2

private theorem find?_follow_of_not_same (copy : RecordMap) {p : Path} {change : FileRecords}
    (apart : p.same change.1 = false) : (follow copy change).find? p = copy.find? p := by
  unfold follow
  split
  · exact PathMap.find?_erase_of_not_same apart copy
  · exact PathMap.find?_insert_of_not_same apart change.2 copy

theorem tidy_follow {copy : RecordMap} (tidy : Tidy copy) (change : FileRecords) :
    Tidy (follow copy change) := by
  unfold follow
  split
  · exact tidy.erase change.1
  · rename_i filled
    exact tidy.insert change.1 filled

theorem tidy_followAll {copy : RecordMap} (tidy : Tidy copy) (changes : List FileRecords) :
    Tidy (followAll copy changes) := by
  induction changes generalizing copy with
  | nil => exact tidy
  | cons change rest ih => exact ih (tidy_follow tidy change)

/-- Of changes to different paths, each path sees its own and no other. -/
theorem find?_followAll {copy : RecordMap} (tidy : Tidy copy) {changes : RecordMap}
    (sorted : Sorted changes) (p : Path) :
    (followAll copy changes).find? p =
      match changes.find? p with
      | some records => entry? records
      | none => copy.find? p := by
  induction changes generalizing copy with
  | nil => rfl
  | cons change rest ih =>
    obtain ⟨first, others⟩ := List.pairwise_cons.1 sorted
    have step := ih (tidy_follow tidy change) others
    rw [followAll, List.foldl_cons, ← followAll, step, PathMap.find?_cons]
    cases same : p.same change.1 with
    | true =>
      have missing : PathMap.find? p rest = none := by
        rw [PathMap.find?_eq_none_iff]
        intro e mem
        rw [Path.same_congr same]
        exact PathMap.not_same_of_compare_lt (first e mem)
      rw [missing, find?_follow tidy same]
      rfl
    | false =>
      rw [find?_follow_of_not_same copy same]
      rfl

/-! ### The changes taken -/

variable {s : PublishedSet}

theorem sorted_changes (kept : s.Kept) : Sorted s.changes :=
  PathMap.sorted_map (fun e : Path × Unit => (s.get? e.1).getD []) kept.changed

/-- The changes hold the present list of each marked path. -/
theorem find?_changes (s : PublishedSet) (p : Path) :
    PathMap.find? p s.changes =
      if s.isMarked p then some ((s.get? p).getD []) else none := by
  unfold changes isMarked PathMap.contains
  induction s.changed with
  | nil => rfl
  | cons e rest ih =>
    rw [List.map_cons, PathMap.find?_cons, PathMap.find?_cons, ih]
    cases same : p.same e.1 with
    | true =>
      have alike : s.get? e.1 = s.get? p := (PathMap.find?_congr same s.files).symm
      simp [alike]
    | false => rfl

private theorem mem_changes_iff (kept : s.Kept) (p : Path) :
    (∃ change ∈ s.changes, p.same change.1 = true) ↔ s.isMarked p = true := by
  have found := find?_changes s p
  constructor
  · rintro ⟨change, mem, same⟩
    by_contra unmarked
    rw [if_neg unmarked, PathMap.find?_of_mem (sorted_changes kept) mem same] at found
    cases found
  · intro marked
    rw [if_pos marked] at found
    obtain ⟨q, same, mem⟩ := PathMap.exists_mem_of_find? found
    exact ⟨(q, _), mem, same⟩

private theorem snd_eq_nil_iff_of_mem_changes (kept : s.Kept) {change : FileRecords}
    (mem : change ∈ s.changes) : change.2 = [] ↔ s.get? change.1 = none := by
  have present := PathMap.find?_of_mem (sorted_changes kept) mem (Path.same_refl change.1)
  rw [find?_changes] at present
  split at present
  · rw [← Option.some.inj present, ← entry?_eq_none_iff]
    exact iff_of_eq (congrArg (· = none) (kept.files.entry?_getD change.1))
  · cases present

/-! ### The host's copy -/

/-- The copy is right about every path that is not marked. -/
structure Mirrors (copy : RecordMap) (s : PublishedSet) : Prop where
  tidy : Tidy copy
  kept : s.Kept
  agrees : ∀ p, s.isMarked p = false → copy.find? p = s.get? p

private theorem mirrors_empty : Mirrors [] empty where
  tidy := .nil
  kept := kept_empty
  agrees _ _ := rfl

variable {copy : RecordMap}

private theorem Mirrors.update (mirrors : Mirrors copy s) {u : Update} (keeps : u ≠ .take) :
    Mirrors copy (s.update u) where
  tidy := mirrors.tidy
  kept := mirrors.kept.update u
  agrees p unmarked := by
    have marks := not_congr (mirrors.kept.isMarked_update keeps p)
    rw [Bool.not_eq_true, unmarked] at marks
    obtain ⟨before, same⟩ := not_or.1 (marks.1 rfl)
    rw [mirrors.agrees p (Bool.eq_false_iff.2 before), ← not_not.1 same]

/-- A copy that follows the changes taken is right about every path. -/
theorem Mirrors.find?_followAll (mirrors : Mirrors copy s) (p : Path) :
    (followAll copy s.takeChanges.1).find? p = s.get? p := by
  have changes : s.takeChanges.1 = s.changes := rfl
  rw [changes, PublishedSet.find?_followAll mirrors.tidy (sorted_changes mirrors.kept),
    find?_changes]
  cases marked : s.isMarked p with
  | true => exact mirrors.kept.files.entry?_getD p
  | false => exact mirrors.agrees p marked

private theorem Mirrors.take (mirrors : Mirrors copy s) :
    Mirrors (followAll copy s.takeChanges.1) s.takeChanges.2 where
  tidy := tidy_followAll mirrors.tidy _
  kept := mirrors.kept.update .take
  agrees p _ := mirrors.find?_followAll p

private theorem Mirrors.after (mirrors : Mirrors copy s) (updates : List Update) :
    Mirrors ((s.feed updates).foldl followAll copy) (s.after updates) := by
  induction updates generalizing copy s with
  | nil => exact mirrors
  | cons u rest ih =>
    cases u with
    | take => exact ih mirrors.take
    | _ => exact ih (mirrors.update (by simp))

private theorem feed_append (s : PublishedSet) (before later : List Update) :
    s.feed (before ++ later) = s.feed before ++ (s.after before).feed later := by
  induction before generalizing s with
  | nil => rfl
  | cons u rest ih =>
    cases u with
    | take => exact congrArg (s.takeChanges.1 :: ·) (ih s.takeChanges.2)
    | _ => exact ih _

theorem after_append (s : PublishedSet) (before later : List Update) :
    s.after (before ++ later) = (s.after before).after later :=
  List.foldl_append

/-! ### What was changed -/

private theorem changedSinceTaking_append_iff (updates : List Update) {u : Update}
    (keeps : u ≠ .take) (p : Path) :
    ChangedSinceTaking (updates ++ [u]) p ↔
      ChangedSinceTaking updates p ∨
        (empty.after updates).get? p ≠ (empty.after (updates ++ [u])).get? p := by
  constructor
  · rintro ⟨before, v, later, eq, since, differ⟩
    rcases split_concat eq with ⟨rfl, rfl, rfl⟩ | ⟨rest, rfl, rfl⟩
    · exact Or.inr differ
    · refine Or.inl ⟨before, v, rest, rfl, ?_, differ⟩
      exact fun w mem => since w (List.mem_append_left _ mem)
  · rintro (⟨before, v, later, rfl, since, differ⟩ | differ)
    · refine ⟨before, v, later ++ [u], by simp, ?_, differ⟩
      intro w mem
      rcases List.mem_append.1 mem with old | new
      · exact since w old
      · rw [List.mem_singleton.1 new]
        exact keeps
    · exact ⟨updates, u, [], rfl, by simp, differ⟩

private theorem not_changedSinceTaking_take (updates : List Update) (p : Path) :
    ¬ ChangedSinceTaking (updates ++ [.take]) p := by
  rintro ⟨before, u, later, eq, since, differ⟩
  rcases split_concat eq with ⟨rfl, rfl, rfl⟩ | ⟨rest, rfl, rfl⟩
  · rw [after_append] at differ
    exact differ rfl
  · exact since .take (List.mem_append_right _ List.mem_cons_self) rfl

/-- The marks are on the paths whose lists were changed since the last taking. -/
private theorem isMarked_iff (updates : List Update) (p : Path) :
    (empty.after updates).isMarked p = true ↔ ChangedSinceTaking updates p := by
  induction updates using List.reverseRecOn with
  | nil =>
    constructor
    · intro marked
      cases marked
    · rintro ⟨before, u, later, eq, _⟩
      simp at eq
  | append_singleton updates u ih =>
    by_cases keeps : u = .take
    · subst keeps
      rw [after_append]
      refine iff_of_false ?_ (not_changedSinceTaking_take updates p)
      intro marked
      cases marked
    · have marks := (kept_empty.after updates).isMarked_update keeps p
      rw [changedSinceTaking_append_iff updates keeps, ← ih, after_append]
      exact marks.trans (or_congr_right ne_comm)

/-- A host that follows the changes holds after every taking what is published.  The changes are
those of the paths whose lists were changed since the taking before, each path once and in path
order; an empty list tells that nothing is published for the path any more. -/
theorem change_feed_mirrors (updates : List Update) :
    (∀ p, (copyAfter (updates ++ [.take])).find? p =
        (empty.after (updates ++ [.take])).get? p) ∧
      ((empty.after updates).takeChanges.1.Pairwise fun a b => a.1.compare b.1 = .lt) ∧
      (∀ p, (∃ change ∈ (empty.after updates).takeChanges.1, p.same change.1 = true) ↔
        ChangedSinceTaking updates p) ∧
      (∀ change ∈ (empty.after updates).takeChanges.1,
        change.2 = [] ↔ (empty.after updates).get? change.1 = none) ∧
      ∀ file ∈ (empty.after updates).files, file.2 ≠ [] := by
  have mirrors := mirrors_empty.after updates
  have kept := mirrors.kept
  refine ⟨fun p => ?_, sorted_changes kept, fun p => ?_, fun change mem => ?_, fun file mem => ?_⟩
  · have copy : copyAfter (updates ++ [.take]) =
        followAll (copyAfter updates) (empty.after updates).takeChanges.1 := by
      rw [copyAfter, feed_append, List.foldl_append]
      rfl
    rw [copy, after_append]
    exact mirrors.find?_followAll p
  · exact (mem_changes_iff kept p).trans (isMarked_iff updates p)
  · exact snd_eq_nil_iff_of_mem_changes kept mem
  · exact kept.files.ne_nil_of_mem mem

end PublishedSet

end ModBench
