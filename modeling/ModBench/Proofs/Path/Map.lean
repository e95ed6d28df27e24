import ModBench.PathMap
import ModBench.Proofs.Path.Order

/-!
Laws of maps keyed by path.  In a map whose entries stand in strict path order, every operation is
known by what it does to the values found: paths that are the same find the same value.
-/

set_option autoImplicit false
set_option relaxedAutoImplicit false

namespace ModBench.PathMap

open Std

variable {α β : Type}

/-- Entries in strict path order, so that no two keys are the same path. -/
def Sorted (m : PathMap α) : Prop :=
  m.Pairwise fun a b => a.1.compare b.1 = .lt

theorem find?_nil (p : Path) : find? p ([] : PathMap α) = none := rfl

theorem find?_cons (p : Path) (e : Path × α) (m : PathMap α) :
    find? p (e :: m) = if p.same e.1 then some e.2 else find? p m := rfl

/-! ### Keys by rank -/

private theorem insertByRank_perm (rank : Rank) (p : Path) (paths : List Path) :
    (insertByRank rank p paths).Perm (p :: paths) := by
  induction paths with
  | nil => exact .refl _
  | cons q rest ih =>
    unfold insertByRank
    split
    · exact .refl _
    · exact (ih.cons q).trans (.swap p q rest)

private theorem keysBy_perm (rank : Rank) (m : PathMap α) : (m.keysBy rank).Perm m.keys := by
  rw [keysBy]
  induction m.keys with
  | nil => exact .refl _
  | cons p paths ih => exact (insertByRank_perm rank p _).trans (ih.cons p)

/-- Whatever the ranks are, the keys are the same. -/
@[simp] theorem mem_keysBy {rank : Rank} {m : PathMap α} {p : Path} :
    p ∈ m.keysBy rank ↔ p ∈ m.keys :=
  (keysBy_perm rank m).mem_iff

/-! ### What is found -/

theorem find?_congr {p q : Path} (h : p.same q = true) (m : PathMap α) :
    find? p m = find? q m := by
  induction m with
  | nil => rfl
  | cons e m ih => rw [find?_cons, find?_cons, Path.same_congr h, ih]

theorem find?_eq_none_iff {p : Path} {m : PathMap α} :
    find? p m = none ↔ ∀ e ∈ m, p.same e.1 = false := by
  induction m with
  | nil => simp [find?_nil]
  | cons e m ih =>
    rw [find?_cons]
    cases h : p.same e.1 <;> simp [h, ih]

theorem exists_mem_of_find? {p : Path} {a : α} {m : PathMap α} (h : find? p m = some a) :
    ∃ q, p.same q = true ∧ (q, a) ∈ m := by
  induction m with
  | nil => cases h
  | cons e m ih =>
    rw [find?_cons] at h
    split at h
    · rename_i same
      obtain rfl := Option.some.inj h
      exact ⟨e.1, same, List.mem_cons_self⟩
    · obtain ⟨q, same, mem⟩ := ih h
      exact ⟨q, same, List.mem_cons_of_mem _ mem⟩

/-- A path finds something exactly if it is the same as one of the keys. -/
theorem exists_mem_keysBy {rank : Rank} {m : PathMap α} {p : Path} :
    (∃ q ∈ m.keysBy rank, p.same q = true) ↔ (find? p m).isSome = true := by
  rw [Option.isSome_iff_exists]
  constructor
  · rintro ⟨q, mem, same⟩
    obtain ⟨e, among, rfl⟩ := List.mem_map.1 (mem_keysBy.1 mem)
    apply Option.ne_none_iff_exists'.1
    intro absent
    rw [find?_eq_none_iff.1 absent e among] at same
    cases same
  · rintro ⟨a, found⟩
    obtain ⟨q, same, mem⟩ := exists_mem_of_find? found
    exact ⟨q, mem_keysBy.2 (List.mem_map.2 ⟨(q, a), mem, rfl⟩), same⟩

theorem not_same_of_compare_lt {p q : Path} (h : p.compare q = .lt) : p.same q = false := by
  rw [Bool.eq_false_iff]
  intro same
  rw [Path.compare_eq_iff.2 same] at h
  cases h

theorem find?_of_mem {m : PathMap α} (sorted : Sorted m) {p q : Path} {a : α} (mem : (q, a) ∈ m)
    (same : p.same q = true) : find? p m = some a := by
  rw [find?_congr same]
  induction m with
  | nil => cases mem
  | cons e m ih =>
    obtain ⟨first, rest⟩ := List.pairwise_cons.1 sorted
    rw [find?_cons]
    rcases List.mem_cons.1 mem with rfl | mem
    · rw [if_pos (Path.same_refl q)]
    · have apart := not_same_of_compare_lt (first _ mem)
      rw [Path.same_comm] at apart
      rw [if_neg (by simp [apart])]
      exact ih rest mem

/-! ### Changing values -/

theorem sorted_map (g : Path × α → β) {m : PathMap α} (sorted : Sorted m) :
    Sorted (m.map fun e => (e.1, g e)) :=
  List.pairwise_map.2 sorted

theorem find?_map (g : α → β) (p : Path) (m : PathMap α) :
    find? p (m.map fun e => (e.1, g e.2)) = (find? p m).map g := by
  induction m with
  | nil => rfl
  | cons e m ih =>
    rw [List.map_cons, find?_cons, find?_cons, ih]
    cases p.same e.1 <;> rfl

theorem find?_adjust_of_same {p q : Path} (h : q.same p = true) (f : α → α) (m : PathMap α) :
    find? p (adjust q f m) = (find? p m).map f := by
  induction m with
  | nil => rfl
  | cons e m ih =>
    simp only [adjust, List.map_cons, find?_cons] at ih ⊢
    rw [Path.same_congr h, ih]
    cases p.same e.1 <;> rfl

theorem find?_adjust_of_not_same {p q : Path} (h : q.same p = false) (f : α → α) (m : PathMap α) :
    find? p (adjust q f m) = find? p m := by
  induction m with
  | nil => rfl
  | cons e m ih =>
    simp only [adjust, List.map_cons, find?_cons] at ih ⊢
    rw [ih]
    cases found : p.same e.1 with
    | false => rfl
    | true =>
      rw [Path.same_comm, Path.same_congr found, Path.same_comm] at h
      simp [h]

/-! ### Putting in -/

theorem find?_upsert_of_not_same {p q : Path} (h : p.same q = false) (f : Option α → α)
    (m : PathMap α) : find? p (upsert q f m) = find? p m := by
  induction m with
  | nil => simp [upsert, find?_cons, h]
  | cons e m ih =>
    rw [upsert]
    split
    · simp [find?_cons, h]
    · simp only [find?_cons]
      rename_i decided
      rw [Path.compare_eq_iff] at decided
      rw [Path.same_comm, Path.same_congr decided, Path.same_comm] at h
      simp [h]
    · rw [find?_cons, find?_cons, ih]

/-- All keys of a sorted map that begins after a path are other paths. -/
theorem find?_eq_none_of_compare_lt {p : Path} {e : Path × α} {m : PathMap α}
    (sorted : Sorted (e :: m)) (h : p.compare e.1 = .lt) : find? p (e :: m) = none := by
  rw [find?_eq_none_iff]
  intro d mem
  rcases List.mem_cons.1 mem with rfl | mem
  · exact not_same_of_compare_lt h
  · exact not_same_of_compare_lt (TransCmp.lt_trans h ((List.pairwise_cons.1 sorted).1 d mem))

theorem find?_upsert_of_same {m : PathMap α} (sorted : Sorted m) {p q : Path}
    (h : p.same q = true) (f : Option α → α) :
    find? p (upsert q f m) = some (f (find? p m)) := by
  rw [find?_congr h, find?_congr h]
  induction m with
  | nil => simp [upsert, find?_cons, find?_nil, Path.same_refl]
  | cons e m ih =>
    rw [upsert]
    split
    · rename_i decided
      rw [find?_eq_none_of_compare_lt sorted decided, find?_cons, if_pos (Path.same_refl q)]
    · rename_i decided
      rw [find?_cons, find?_cons, if_pos (Path.compare_eq_iff.1 decided),
        if_pos (Path.compare_eq_iff.1 decided)]
    · rename_i decided
      have apart : q.same e.1 = false := by
        rw [Path.same_comm]
        exact not_same_of_compare_lt (OrientedCmp.lt_of_gt decided)
      rw [find?_cons, find?_cons, ih (List.pairwise_cons.1 sorted).2]
      simp [apart]

theorem key_mem_upsert {q : Path} {f : Option α → α} {m : PathMap α} {e : Path × α}
    (mem : e ∈ upsert q f m) : e.1 = q ∨ ∃ d ∈ m, d.1 = e.1 := by
  induction m with
  | nil =>
    obtain rfl := List.mem_singleton.1 mem
    exact Or.inl rfl
  | cons d m ih =>
    rw [upsert] at mem
    split at mem
    · rcases List.mem_cons.1 mem with rfl | mem
      · exact Or.inl rfl
      · exact Or.inr ⟨e, mem, rfl⟩
    · rcases List.mem_cons.1 mem with rfl | mem
      · exact Or.inr ⟨d, List.mem_cons_self, rfl⟩
      · exact Or.inr ⟨e, List.mem_cons_of_mem _ mem, rfl⟩
    · rcases List.mem_cons.1 mem with rfl | mem
      · exact Or.inr ⟨_, List.mem_cons_self, rfl⟩
      · rcases ih mem with eq | ⟨d', mem', eq⟩
        · exact Or.inl eq
        · exact Or.inr ⟨d', List.mem_cons_of_mem _ mem', eq⟩

/-- What holds of all keys holds of them still if it holds of a new one, and so it is with values.
-/
theorem forall_insert (ofKey : Path → Prop) (ofValue : α → Prop) {q : Path} {a : α} {m : PathMap α}
    (all : ∀ e ∈ m, ofKey e.1 ∧ ofValue e.2) (here : ofKey q ∧ ofValue a) :
    ∀ e ∈ insert q a m, ofKey e.1 ∧ ofValue e.2 := by
  induction m with
  | nil => exact fun e mem => List.mem_singleton.1 mem ▸ here
  | cons d m ih =>
    obtain ⟨first, rest⟩ := List.forall_mem_cons.1 all
    unfold insert upsert
    split
    · exact List.forall_mem_cons.2 ⟨here, all⟩
    · exact List.forall_mem_cons.2 ⟨⟨first.1, here.2⟩, rest⟩
    · exact List.forall_mem_cons.2 ⟨first, ih rest⟩

theorem sorted_upsert {m : PathMap α} (sorted : Sorted m) (q : Path) (f : Option α → α) :
    Sorted (upsert q f m) := by
  induction m with
  | nil => exact List.pairwise_singleton _ _
  | cons d m ih =>
    obtain ⟨first, rest⟩ := List.pairwise_cons.1 sorted
    rw [upsert]
    split
    · rename_i decided
      refine List.pairwise_cons.2 ⟨?_, sorted⟩
      intro e mem
      rcases List.mem_cons.1 mem with rfl | mem
      · exact decided
      · exact TransCmp.lt_trans decided (first e mem)
    · exact List.pairwise_cons.2 ⟨first, rest⟩
    · rename_i decided
      refine List.pairwise_cons.2 ⟨?_, ih rest⟩
      intro e mem
      rcases key_mem_upsert mem with eq | ⟨d', mem', eq⟩
      · rw [eq]
        exact OrientedCmp.lt_of_gt decided
      · rw [← eq]
        exact first d' mem'

theorem sorted_insert {m : PathMap α} (sorted : Sorted m) (q : Path) (a : α) :
    Sorted (insert q a m) :=
  sorted_upsert sorted q _

theorem find?_insert_of_same {m : PathMap α} (sorted : Sorted m) {p q : Path}
    (h : p.same q = true) (a : α) : find? p (insert q a m) = some a :=
  find?_upsert_of_same sorted h _

theorem find?_insert_of_not_same {p q : Path} (h : p.same q = false) (a : α) (m : PathMap α) :
    find? p (insert q a m) = find? p m :=
  find?_upsert_of_not_same h _ m

theorem upsert_perm_of_find?_eq_none {q : Path} {m : PathMap α} (absent : find? q m = none)
    (f : Option α → α) : (upsert q f m).Perm ((q, f none) :: m) := by
  induction m with
  | nil => exact List.Perm.refl _
  | cons e m ih =>
    rw [find?_cons] at absent
    split at absent
    · cases absent
    · rename_i apart
      rw [upsert]
      split
      · exact List.Perm.refl _
      · rename_i decided
        exact absurd (Path.compare_eq_iff.1 decided) apart
      · exact ((ih absent).cons e).trans (List.Perm.swap _ _ m)

/-! ### Taking out -/

theorem sorted_erase {m : PathMap α} (sorted : Sorted m) (q : Path) : Sorted (erase q m) :=
  sorted.filter _

theorem find?_erase_of_same {p q : Path} (h : p.same q = true) (m : PathMap α) :
    find? p (erase q m) = none := by
  rw [find?_eq_none_iff]
  intro e mem
  obtain ⟨_, kept⟩ := List.mem_filter.1 mem
  rw [Path.same_congr h]
  simpa using kept

theorem find?_erase_of_not_same {p q : Path} (h : p.same q = false) (m : PathMap α) :
    find? p (erase q m) = find? p m := by
  induction m with
  | nil => rfl
  | cons e m ih =>
    simp only [erase, List.filter_cons, find?_cons] at ih ⊢
    cases dropped : q.same e.1 with
    | false =>
      simp only [Bool.not_false, if_true, find?_cons]
      rw [ih]
    | true =>
      have apart : p.same e.1 = false := by
        rw [Path.same_comm] at h
        rw [Path.same_comm, ← Path.same_congr dropped]
        exact h
      simp only [Bool.not_true, Bool.false_eq_true, if_false, apart]
      exact ih

private theorem erase_of_find?_eq_none {q : Path} {m : PathMap α} (absent : find? q m = none) :
    erase q m = m := by
  refine List.filter_eq_self.2 ?_
  intro e mem
  simp [find?_eq_none_iff.1 absent e mem]

/-- The entry for a path stands in one place; it can be changed or taken out there. -/
theorem exists_split_of_find? {m : PathMap α} (sorted : Sorted m) {q : Path} {a : α}
    (found : find? q m = some a) : ∃ k before later, m = before ++ (k, a) :: later ∧
      (∀ f, upsert q f m = before ++ (k, f (some a)) :: later) ∧ erase q m = before ++ later := by
  induction m with
  | nil => cases found
  | cons e m ih =>
    obtain ⟨first, rest⟩ := List.pairwise_cons.1 sorted
    rw [find?_cons] at found
    split at found
    · rename_i same
      obtain rfl := Option.some.inj found
      have last : find? q m = none := by
        rw [find?_congr same]
        exact find?_eq_none_iff.2 fun d mem => not_same_of_compare_lt (first d mem)
      refine ⟨e.1, [], m, rfl, fun f => ?_, ?_⟩
      · rw [upsert, Path.compare_eq_iff.2 same]
        rfl
      · have dropped : erase q (e :: m) = erase q m := List.filter_cons_of_neg (by simp [same])
        rw [dropped, erase_of_find?_eq_none last]
        rfl
    · rename_i apart
      obtain ⟨k, before, later, eq, changed, erased⟩ := ih rest found
      refine ⟨k, e :: before, later, by rw [eq]; rfl, fun f => ?_, ?_⟩
      · rw [upsert]
        split
        · rename_i decided
          have absent := find?_eq_none_of_compare_lt sorted decided
          rw [find?_cons, if_neg apart, found] at absent
          cases absent
        · rename_i decided
          exact absurd (Path.compare_eq_iff.1 decided) apart
        · rw [changed]
          rfl
      · have kept : erase q (e :: m) = e :: erase q m :=
          List.filter_cons_of_pos (by simp [Bool.eq_false_iff.2 apart])
        rw [kept, erased]
        rfl

end ModBench.PathMap
