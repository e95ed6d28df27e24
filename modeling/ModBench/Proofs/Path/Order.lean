import Mathlib.Data.List.Basic
import ModBench.Path

/-!
The order on paths.  Components are ordered linearly, component lists lexicographically, and two
paths compare as equal exactly when they have the same components.
-/

set_option autoImplicit false
set_option relaxedAutoImplicit false

namespace ModBench

open Std

namespace Component

private theorem compareBytes_eq_compareLex :
    compareBytes = List.compareLex (compareOn UInt8.toNat) := by
  funext as bs
  induction as generalizing bs with
  | nil => cases bs <;> rfl
  | cons a as ih =>
    cases bs with
    | nil => rfl
    | cons b bs =>
      rw [compareBytes, List.compareLex_cons_cons, compareOn, Nat.compare_eq_ite_lt, ih]
      split_ifs <;> rfl

private theorem compare_eq_compareLex :
    compare = compareLex (compareOn rank)
      (fun a b => List.compareLex (compareOn UInt8.toNat) a.nameBytes b.nameBytes) := by
  funext a b
  rw [compare, compareLex, compareOn, Nat.compare_eq_ite_lt, compareBytes_eq_compareLex]
  split_ifs <;> rfl

/-- An order on the values of a function is one on its arguments. -/
theorem transCmp_comap {α β : Type} (f : α → β) (cmp : β → β → Ordering) [TransCmp cmp] :
    TransCmp fun a b => cmp (f a) (f b) where
  eq_swap := OrientedCmp.eq_swap
  isLE_trans := TransCmp.isLE_trans

instance : LawfulEqCmp (compareOn UInt8.toNat) where
  compare_self := ReflCmp.compare_self
  eq_of_compare h := UInt8.toNat_inj.mp (LawfulEqCmp.eq_of_compare h)

instance : TransCmp compareBytes := by
  rw [compareBytes_eq_compareLex]
  infer_instance

instance : LawfulEqCmp compareBytes := by
  rw [compareBytes_eq_compareLex]
  infer_instance

instance : TransCmp (fun a b : Component =>
    List.compareLex (compareOn UInt8.toNat) a.nameBytes b.nameBytes) :=
  transCmp_comap nameBytes _

instance : TransCmp compare := by
  rw [compare_eq_compareLex]
  infer_instance

instance : LawfulEqCmp compare where
  eq_of_compare {a b} h := by
    rw [compare_eq_compareLex, compareLex_eq_eq] at h
    have ranks : a.rank = b.rank := LawfulEqCmp.eq_of_compare h.1
    have names : a.nameBytes = b.nameBytes := LawfulEqCmp.eq_of_compare h.2
    cases a <;> cases b <;> simp_all [rank, nameBytes]

private theorem compareLists_eq_compareLex : compareLists = List.compareLex compare := by
  funext as bs
  induction as generalizing bs with
  | nil => cases bs <;> rfl
  | cons a as ih =>
    cases bs with
    | nil => rfl
    | cons b bs =>
      rw [compareLists, List.compareLex_cons_cons, ih]
      cases compare a b <;> rfl

instance : TransCmp compareLists := by
  rw [compareLists_eq_compareLex]
  infer_instance

instance : LawfulEqCmp compareLists := by
  rw [compareLists_eq_compareLex]
  infer_instance

end Component

namespace Path

theorem same_iff {p q : Path} : p.same q = true ↔ p.components = q.components := by
  simp [same]

theorem same_refl (p : Path) : p.same p = true :=
  same_iff.2 rfl

theorem same_symm {p q : Path} (h : p.same q = true) : q.same p = true :=
  same_iff.2 (same_iff.1 h).symm

theorem same_trans {p q r : Path} (h : p.same q = true) (h' : q.same r = true) :
    p.same r = true :=
  same_iff.2 ((same_iff.1 h).trans (same_iff.1 h'))

theorem same_comm (p q : Path) : p.same q = q.same p := by
  rw [Bool.eq_iff_iff]
  exact ⟨same_symm, same_symm⟩

/-- Paths with the same components are the same as the same paths. -/
theorem same_congr {p q : Path} (h : p.same q = true) (r : Path) : p.same r = q.same r := by
  rw [Bool.eq_iff_iff]
  exact ⟨same_trans (same_symm h), same_trans h⟩

theorem compare_eq_iff {p q : Path} : p.compare q = .eq ↔ p.same q = true := by
  rw [same_iff, compare]
  exact LawfulEqCmp.compare_eq_iff_eq

instance : TransCmp compare where
  eq_swap {p q} := OrientedCmp.eq_swap (a := p.components) (b := q.components)
  isLE_trans {p q r} := TransCmp.isLE_trans (a := p.components) (b := q.components)
    (c := r.components)

/-- What is said of a path by its components does not depend on its spelling. -/
theorem hasExtension_congr {p q : Path} (h : p.same q = true) (wanted : String) :
    p.hasExtension wanted = q.hasExtension wanted := by
  simp only [hasExtension, extension?, fileName?, same_iff.1 h]

theorem startsWith_congr {p q : Path} (h : p.same q = true) (start : Path) :
    p.startsWith start = q.startsWith start := by
  simp only [startsWith, same_iff.1 h]

end Path

end ModBench
