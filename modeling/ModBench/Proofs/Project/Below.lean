import Mathlib.Data.List.Lex
import ModBench.Project.Package
import ModBench.Proofs.Files.Tree
import ModBench.Proofs.Path.Order

/-!
What a search finds.  It finds everything that stands below a place, down to its depth, and nothing
else; a search as deep as the tree is high finds everything.  What it finds is in strict order, each
directory before what is in it.
-/

set_option autoImplicit false
set_option relaxedAutoImplicit false

namespace ModBench

open Files (Tree Place Name Node)
open Std (TransCmp OrientedCmp LawfulEqCmp ReflCmp)

namespace Files.Tree

variable {t : Tree} {place directory : Place} {name : Name} {node : Node}

/-! ### Height -/

theorem height_le_iff {n : Nat} : t.height ≤ n ↔ ∀ e ∈ t, e.1.length ≤ n := by
  unfold height
  induction t with
  | nil => simp
  | cons e t ih => rw [List.foldr_cons, Nat.max_le, ih, List.forall_mem_cons]

theorem length_le_height {e : Place × Node} (mem : e ∈ t) : e.1.length ≤ t.height :=
  height_le_iff.1 (Nat.le_refl _) e mem

/-! ### Children -/

theorem nameIn?_eq_some_iff {e : Place × Node} {child : Name × Node} :
    nameIn? directory e = some child ↔ e = (directory ++ [child.1], child.2) := by
  obtain ⟨place, node⟩ := e
  obtain ⟨name, node'⟩ := child
  unfold nameIn?
  constructor
  · intro found
    split at found
    · rename_i inside
      simp only [Bool.and_eq_true, decide_eq_true_eq, List.isPrefixOf_iff_prefix] at inside
      obtain ⟨length, rest, rfl⟩ := inside
      obtain ⟨last, rfl⟩ : ∃ last, rest = [last] :=
        List.length_eq_one_iff.1 (by simpa using length)
      simp only [List.getLast?_concat, Option.map_some, Option.some.injEq, Prod.mk.injEq] at found
      simp [found]
    · cases found
  · rintro found
    obtain ⟨rfl, rfl⟩ := Prod.mk.inj found
    simp

theorem mem_children {child : Name × Node} :
    child ∈ t.children directory ↔ (directory ++ [child.1], child.2) ∈ t := by
  rw [children, List.mem_mergeSort, List.mem_filterMap]
  constructor
  · rintro ⟨e, mem, found⟩
    rwa [← nameIn?_eq_some_iff.1 found]
  · intro mem
    exact ⟨_, mem, nameIn?_eq_some_iff.2 rfl⟩

private theorem InOrder.mem_children (order : t.InOrder) {child : Name × Node} :
    child ∈ t.children directory ↔ t.find? (directory ++ [child.1]) = some child.2 := by
  rw [Tree.mem_children]
  constructor
  · exact fun mem => order.find?_of_mem mem
  · exact fun found => mem_of_find? (by simp) found

/-! ### Order -/

/-- The first name stands before the second one. -/
def NameBefore (a b : Name) : Prop :=
  Component.compareBytes a b = .lt

/-- The order of names is the order of their bytes. -/
theorem NameBefore.lt {a b : Name} (before : NameBefore a b) : a < b := by
  unfold NameBefore at before
  induction a generalizing b with
  | nil =>
    cases b with
    | nil => cases before
    | cons => exact List.nil_lt_cons _ _
  | cons x a ih =>
    cases b with
    | nil => cases before
    | cons y b =>
      rw [Component.compareBytes] at before
      rw [List.cons_lt_cons_iff]
      split at before
      · rename_i less
        exact .inl less
      · rename_i above
        split at before
        · cases before
        · rename_i below
          exact .inr ⟨UInt8.toNat_inj.1 (by omega), ih before⟩

private theorem namePrecedes_eq (a b : Name × Node) :
    namePrecedes a b = (Component.compareBytes a.1 b.1).isLE := by
  unfold namePrecedes
  cases Component.compareBytes a.1 b.1 <;> rfl

private theorem InOrder.children_nodup (order : t.InOrder) (directory : Place) :
    ((t.children directory).map Prod.fst).Nodup := by
  have perm : ((t.children directory).map Prod.fst).Perm
      ((t.filterMap (nameIn? directory)).map Prod.fst) :=
    (List.mergeSort_perm _ _).map _
  rw [perm.nodup_iff, List.Nodup, List.pairwise_map, List.pairwise_filterMap]
  have once := order.once
  rw [List.Nodup, List.pairwise_map] at once
  refine once.imp fun apart child found child' found' same => apart ?_
  rw [nameIn?_eq_some_iff.1 found, nameIn?_eq_some_iff.1 found', same]

/-- The names in a directory are in strict order. -/
private theorem InOrder.children_sorted (order : t.InOrder) (directory : Place) :
    (t.children directory).Pairwise fun a b => NameBefore a.1 b.1 := by
  have sorted : (t.children directory).Pairwise fun a b => namePrecedes a b = true := by
    refine List.pairwise_mergeSort (fun a b c first second => ?_) (fun a b => ?_) _
    · rw [namePrecedes_eq] at *
      exact TransCmp.isLE_trans first second
    · have swapped : Component.compareBytes b.1 a.1 = (Component.compareBytes a.1 b.1).swap :=
        OrientedCmp.eq_swap
      rw [namePrecedes_eq, namePrecedes_eq, swapped]
      cases Component.compareBytes a.1 b.1 <;> rfl
  have distinct := order.children_nodup directory
  rw [List.Nodup, List.pairwise_map] at distinct
  refine (sorted.and distinct).imp fun {a b} ⟨precedes, apart⟩ => ?_
  rw [namePrecedes_eq] at precedes
  unfold NameBefore
  cases order : Component.compareBytes a.1 b.1 with
  | lt => rfl
  | eq => exact absurd (LawfulEqCmp.eq_of_compare order) apart
  | gt =>
    rw [order] at precedes
    cases precedes

theorem not_nameBefore_self (a : Name) : ¬ NameBefore a a := by
  unfold NameBefore
  have self : Component.compareBytes a a = .eq := ReflCmp.compare_self
  simp [self]

/-- A place is not at or below one that comes later. -/
theorem not_prefix_of_lex {a b : Place} (h : List.Lex NameBefore a b) : ¬ b <+: a := by
  induction h with
  | nil => simp
  | cons _ ih =>
    rw [List.cons_prefix_cons]
    exact fun ⟨_, inside⟩ => ih inside
  | rel before =>
    rw [List.cons_prefix_cons]
    rintro ⟨rfl, _⟩
    exact not_nameBefore_self _ before

/-- Places in one directory come in the order of their names. -/
theorem nameBefore_of_lex {folder : Place} {a b : Name}
    (h : List.Lex NameBefore (folder ++ [a]) (folder ++ [b])) : NameBefore a b := by
  induction folder with
  | nil =>
    cases h with
    | rel before => exact before
    | cons more => cases more
  | cons name folder ih =>
    cases h with
    | rel before => exact absurd before (not_nameBefore_self name)
    | cons more => exact ih more

end Files.Tree

namespace Package

variable {t : Tree} {place : Place} {depth : Nat} {f : Found}

/-- What is found below a place: its entries, and what is found below those that are directories. -/
private theorem mem_below_succ : f ∈ below t (depth + 1) place ↔
    ∃ name node, (name, node) ∈ t.children place ∧ (f = ⟨[name], node⟩ ∨
      node = .directory ∧
        ∃ g ∈ below t depth (place ++ [name]), f = ⟨name :: g.names, g.node⟩) := by
  rw [below, List.mem_flatMap]
  constructor
  · rintro ⟨⟨name, node⟩, child, mem⟩
    refine ⟨name, node, child, ?_⟩
    rcases List.mem_cons.1 mem with rfl | mem
    · exact Or.inl rfl
    · split at mem
      · rename_i directory
        obtain ⟨g, found, rfl⟩ := List.mem_map.1 mem
        exact Or.inr ⟨directory, g, found, rfl⟩
      · cases mem
  · rintro ⟨name, node, child, rfl | ⟨rfl, g, found, rfl⟩⟩
    · exact ⟨(name, node), child, List.mem_cons_self⟩
    · refine ⟨(name, .directory), child, List.mem_cons_of_mem _ ?_⟩
      rw [if_pos rfl]
      exact List.mem_map_of_mem found

/-- A search finds what stands below a place down to its depth. -/
theorem mem_below (order : t.InOrder) : f ∈ below t depth place ↔
    f.names ≠ [] ∧ f.names.length ≤ depth ∧ t.find? (place ++ f.names) = some f.node := by
  induction depth generalizing place f with
  | zero =>
    constructor
    · intro found
      cases found
    · rintro ⟨filled, near, _⟩
      exact absurd (List.eq_nil_of_length_eq_zero (Nat.le_zero.1 near)) filled
  | succ depth ih =>
    rw [mem_below_succ]
    constructor
    · rintro ⟨name, node, child, rfl | ⟨rfl, g, found, rfl⟩⟩
      · exact ⟨by simp, by simp, order.mem_children.1 child⟩
      · obtain ⟨_, near, there⟩ := ih.1 found
        refine ⟨by simp, by simpa using near, ?_⟩
        rwa [List.append_assoc] at there
    · rintro ⟨filled, near, there⟩
      obtain ⟨names, node⟩ := f
      cases names with
      | nil => exact absurd rfl filled
      | cons name rest =>
        dsimp only at near there
        by_cases last : rest = []
        · rw [last] at there ⊢
          exact ⟨name, node, order.mem_children.2 there, Or.inl rfl⟩
        · have split : place ++ name :: rest = place ++ [name] ++ rest := by simp
          rw [split] at there
          have housed : t.find? (place ++ [name]) = some .directory :=
            order.directory_of_below last (there ▸ Option.some_ne_none node)
          have found : (⟨rest, node⟩ : Found) ∈ below t depth (place ++ [name]) :=
            ih.2 ⟨last, by simpa using near, there⟩
          exact ⟨name, .directory, order.mem_children.2 housed,
            Or.inr ⟨rfl, ⟨rest, node⟩, found, rfl⟩⟩

/-- A search that is deep enough finds no more when it goes deeper. -/
private theorem below_succ_of_height (deep : t.height ≤ place.length + depth) :
    below t (depth + 1) place = below t depth place := by
  induction depth generalizing place with
  | zero =>
    have empty : t.children place = [] := by
      by_contra filled
      obtain ⟨child, mem⟩ := List.exists_mem_of_ne_nil _ filled
      have high := Tree.length_le_height (Tree.mem_children.1 mem)
      simp only [List.length_append, List.length_singleton] at high
      omega
    rw [below, below, empty]
    rfl
  | succ depth ih =>
    have deeper : ∀ name : Name, below t (depth + 1) (place ++ [name]) =
        below t depth (place ++ [name]) := by
      intro name
      refine ih ?_
      simp only [List.length_append, List.length_singleton]
      omega
    rw [below, below]
    simp only [deeper]

theorem below_of_height {more : Nat} (deep : t.height ≤ more) :
    below t more place = below t t.height place := by
  obtain ⟨extra, rfl⟩ := Nat.exists_eq_add_of_le deep
  induction extra with
  | zero => rfl
  | succ extra ih =>
    rw [← Nat.add_assoc, below_succ_of_height (by omega)]
    exact ih (by omega)

/-- A search as deep as the tree is high finds everything below a place. -/
theorem mem_below_height (order : t.InOrder) : f ∈ below t t.height place ↔
    f.names ≠ [] ∧ t.find? (place ++ f.names) = some f.node := by
  rw [mem_below order]
  constructor
  · rintro ⟨filled, _, there⟩
    exact ⟨filled, there⟩
  · rintro ⟨filled, there⟩
    have high := Tree.length_le_height (Tree.mem_of_find? (by simp [filled]) there)
    simp only [List.length_append] at high
    exact ⟨filled, by omega, there⟩

/-- A search finds names in strict lexicographic order. -/
theorem below_sorted (order : t.InOrder) : (below t depth place).Pairwise fun f g =>
    List.Lex Tree.NameBefore f.names g.names := by
  induction depth generalizing place with
  | zero => exact List.Pairwise.nil
  | succ depth ih =>
    rw [below, List.pairwise_flatMap]
    -- All that is found at or below a child begins with the child's name.
    have begins : ∀ (child : Name × Node),
        ∀ f ∈ (⟨[child.1], child.2⟩ :: if child.2 = .directory then
          (below t depth (place ++ [child.1])).map fun f => { f with names := child.1 :: f.names }
          else [] : List Found), ∃ rest, f.names = child.1 :: rest := by
      rintro ⟨name, node⟩ f mem
      rcases List.mem_cons.1 mem with rfl | mem
      · exact ⟨[], rfl⟩
      · split at mem
        · obtain ⟨g, _, rfl⟩ := List.mem_map.1 mem
          exact ⟨g.names, rfl⟩
        · cases mem
    constructor
    · rintro ⟨name, node⟩ _
      rw [List.pairwise_cons]
      split
      · rw [List.pairwise_map]
        constructor
        · intro f mem
          obtain ⟨g, found, rfl⟩ := List.mem_map.1 mem
          obtain ⟨filled, _⟩ := (mem_below order).1 found
          cases names : g.names with
          | nil => exact absurd names filled
          | cons first rest => exact .cons .nil
        · have deeper := @ih (place ++ [name])
          exact deeper.imp fun before => .cons before
      · simp
    · refine (order.children_sorted place).imp fun {a b} before f mem g mem' => ?_
      obtain ⟨rest, names⟩ := begins a f mem
      obtain ⟨rest', names'⟩ := begins b g mem'
      rw [names, names']
      exact .rel before

end Package

end ModBench
