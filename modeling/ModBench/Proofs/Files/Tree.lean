import Mathlib.Data.List.Induction
import ModBench.Files.Tree

/-!
What stands where in a tree of files.  Every change is described by what is found afterwards at each
place.  In a tree that is in order nothing stands below anything but a directory.
-/

set_option autoImplicit false
set_option relaxedAutoImplicit false

namespace ModBench.Files.Tree

variable {t : Tree} {place other source target : Place} {node : Node}

/-! ### Finding -/

theorem find?_of_ne_nil (t : Tree) (h : place ≠ []) :
    t.find? place = (List.find? (fun e => e.1 == place) t).map Prod.snd := by
  cases place with
  | nil => exact absurd rfl h
  | cons => rfl

theorem mem_of_find? (h : place ≠ []) (found : t.find? place = some node) :
    (place, node) ∈ t := by
  rw [find?_of_ne_nil t h] at found
  obtain ⟨e, here, rfl⟩ := Option.map_eq_some_iff.1 found
  have named : e.1 = place := by simpa using List.find?_some here
  rw [← named]
  exact List.mem_of_find?_eq_some here

theorem find?_eq_none_iff (h : place ≠ []) : t.find? place = none ↔ ∀ e ∈ t, e.1 ≠ place := by
  rw [find?_of_ne_nil t h, Option.map_eq_none_iff, List.find?_eq_none]
  simp

private theorem find?_ne_none_of_mem {e : Place × Node} (mem : e ∈ t) : t.find? e.1 ≠ none := by
  by_cases root : e.1 = []
  · rw [root]
    simp [find?]
  · intro none
    exact (find?_eq_none_iff root).1 none e mem rfl

/-- What stands at a place that is listed once is found there. -/
theorem find?_of_once (once : (t.map Prod.fst).Nodup) {e : Place × Node} (root : e.1 ≠ [])
    (mem : e ∈ t) : t.find? e.1 = some e.2 := by
  rw [find?_of_ne_nil _ root, List.find?_eq_some_iff_append.2 ?_, Option.map_some]
  obtain ⟨before, after, rfl⟩ := List.append_of_mem mem
  refine ⟨by simp, before, after, rfl, fun d here => ?_⟩
  have apart : d.1 ≠ e.1 := by
    rw [List.map_append, List.map_cons] at once
    exact (List.nodup_append.1 once).2.2 d.1 (List.mem_map_of_mem here) e.1 List.mem_cons_self
  simpa using apart

/-- What is found at a place after all places were changed is what was found at the place that
became this one. -/
theorem find?_map (f : Place → Place) (here : place ≠ []) (there : other ≠ [])
    (becomes : ∀ e ∈ t, f e.1 = place ↔ e.1 = other) :
    find? (t.map fun e => (f e.1, e.2)) place = t.find? other := by
  rw [find?_of_ne_nil _ here, find?_of_ne_nil _ there, List.find?_map, Option.map_map]
  have picked : ∀ l : Tree, (∀ e ∈ l, f e.1 = place ↔ e.1 = other) →
      List.find? ((fun e : Place × Node => e.1 == place) ∘ fun e => (f e.1, e.2)) l =
        List.find? (fun e => e.1 == other) l := by
    intro l
    induction l with
    | nil => exact fun _ => rfl
    | cons e l ih =>
      intro becomes
      have first := becomes e List.mem_cons_self
      have rest := ih fun e mem => becomes e (List.mem_cons_of_mem _ mem)
      have test : (f e.1 == place) = (e.1 == other) := by
        rw [Bool.eq_iff_iff, beq_iff_eq, beq_iff_eq]
        exact first
      rw [List.find?_cons, List.find?_cons, rest, Function.comp, test]
  rw [picked t becomes]
  rfl

/-! ### Putting in and taking out -/

private theorem any_place (t : Tree) (place : Place) :
    (t.any fun e => e.1 == place) = true ↔ ∃ e ∈ t, e.1 = place := by
  simp

/-- What is new comes last. -/
theorem put_of_new (h : place ≠ []) (new : ∀ e ∈ t, e.1 ≠ place) (node : Node) :
    t.put place node = t ++ [(place, node)] := by
  have absent : (t.any fun e => e.1 == place) = false := by
    simpa using new
  rw [put, if_neg h, if_neg (by simp [absent])]

theorem find?_put_self (h : place ≠ []) (node : Node) :
    (t.put place node).find? place = some node := by
  unfold put
  rw [if_neg h]
  split
  · rename_i present
    rw [any_place] at present
    rw [find?_of_ne_nil _ h, List.find?_map, Option.map_map]
    have renamed : ((fun e : Place × Node => e.1 == place) ∘
        fun e => if (e.1 == place) = true then (e.1, node) else e) =
        fun e => e.1 == place := by
      funext e
      simp only [Function.comp]
      split <;> rfl
    rw [renamed]
    obtain ⟨e, mem, named⟩ := present
    cases found : List.find? (fun e : Place × Node => e.1 == place) t with
    | none =>
      have absent := List.find?_eq_none.1 found e mem
      simp [named] at absent
    | some e =>
      have named : e.1 = place := by simpa using List.find?_some found
      simp [named]
  · rename_i absent
    have new : ∀ e ∈ t, e.1 ≠ place := fun e mem named =>
      absent ((any_place t place).2 ⟨e, mem, named⟩)
    rw [find?_of_ne_nil _ h, List.find?_append]
    have none : List.find? (fun e : Place × Node => e.1 == place) t = none := by
      simpa using new
    simp [none]

theorem find?_put_ne (h : other ≠ place) (node : Node) :
    (t.put place node).find? other = t.find? other := by
  by_cases root : other = []
  · rw [root]
    rfl
  unfold put
  split
  · rfl
  split
  · rw [find?_of_ne_nil _ root, find?_of_ne_nil _ root, List.find?_map, Option.map_map]
    have renamed : ((fun e : Place × Node => e.1 == other) ∘
        fun e => if (e.1 == place) = true then (e.1, node) else e) =
        fun e => e.1 == other := by
      funext e
      simp only [Function.comp]
      split <;> rfl
    rw [renamed]
    cases found : List.find? (fun e : Place × Node => e.1 == other) t with
    | none => rfl
    | some e =>
      have named : e.1 = other := by simpa using List.find?_some found
      simp [named, h]
  · rw [find?_of_ne_nil _ root, find?_of_ne_nil _ root, List.find?_append]
    have apart : List.find? (fun e : Place × Node => e.1 == other) [(place, node)] = none := by
      simp [h.symm]
    simp [apart]

/-- What was new and is taken out again leaves no trace. -/
theorem delete_of_free (h : place ≠ []) (free : t.find? place = none) : t.delete place = t :=
  List.filter_eq_self.2 (by simpa using (find?_eq_none_iff h).1 free)

theorem delete_comm (t : Tree) (place other : Place) :
    (t.delete place).delete other = (t.delete other).delete place := by
  simp only [delete, List.filter_filter, Bool.and_comm]

theorem delete_put (h : place ≠ []) (new : ∀ e ∈ t, e.1 ≠ place) (node : Node) :
    (t.put place node).delete place = t := by
  rw [put_of_new h new, delete, List.filter_append, List.filter_eq_self.2]
  · simp
  · simpa using new

theorem put_put (h : place ≠ []) (new : ∀ e ∈ t, e.1 ≠ place) (node node' : Node) :
    (t.put place node).put place node' = t.put place node' := by
  rw [put_of_new h new, put_of_new h new, put, if_neg h, if_pos (by simp)]
  have kept : t.map (fun e => if (e.1 == place) = true then (e.1, node') else e) = t := by
    conv_rhs => rw [← List.map_id t]
    refine List.map_congr_left fun e mem => ?_
    simp [new e mem]
  rw [List.map_append, kept]
  simp

theorem find?_deleteAll_of_not_below (h : ¬ place <+: other) :
    (t.deleteAll place).find? other = t.find? other := by
  by_cases root : other = []
  · rw [root]
    rfl
  rw [find?_of_ne_nil _ root, find?_of_ne_nil _ root, deleteAll, List.find?_filter]
  have kept : place.isPrefixOf other = false := by
    rwa [← Bool.not_eq_true, List.isPrefixOf_iff_prefix]
  congr 2
  funext e
  by_cases named : e.1 = other
  · simp [named, kept]
  · simp [named]

theorem find?_deleteAll_of_below (root : place ≠ []) (h : place <+: other) :
    (t.deleteAll place).find? other = none := by
  have filled : other ≠ [] := by
    rintro rfl
    exact root (List.prefix_nil.1 h)
  rw [find?_eq_none_iff filled]
  rintro e mem rfl
  have cut : place.isPrefixOf e.1 = true := List.isPrefixOf_iff_prefix.2 h
  simp [deleteAll, cut] at mem

/-! ### Moving -/

theorem moved_append (source target rest : Place) :
    moved source target (source ++ rest) = target ++ rest := by
  simp [moved]

theorem moved_of_not_below (h : ¬ source <+: place) (target : Place) :
    moved source target place = place := by
  simp [moved, h]

/-- What is moved to where nothing is, is found there with all below it. -/
private theorem find?_move_append (hs : source ≠ []) (ht : target ≠ [])
    (free : ∀ e ∈ t, ¬ target <+: e.1) (rest : Place) :
    (t.move source target).find? (target ++ rest) = t.find? (source ++ rest) := by
  refine find?_map (moved source target) (by simp [ht]) (by simp [hs]) fun e mem => ?_
  constructor
  · intro arrived
    by_cases carried : source <+: e.1
    · obtain ⟨more, eq⟩ := carried
      rw [← eq, moved_append, List.append_cancel_left_eq] at arrived
      rw [← eq, arrived]
    · rw [moved_of_not_below carried] at arrived
      exact absurd (arrived ▸ List.prefix_append target rest) (free e mem)
  · rintro eq
    rw [eq, moved_append]

private theorem find?_move_of_apart (from_source : ¬ source <+: place)
    (from_target : ¬ target <+: place) : (t.move source target).find? place = t.find? place := by
  by_cases root : place = []
  · rw [root]
    rfl
  refine find?_map (moved source target) root root fun e _ => ?_
  constructor
  · intro arrived
    by_cases carried : source <+: e.1
    · obtain ⟨more, eq⟩ := carried
      rw [← eq, moved_append] at arrived
      exact absurd (arrived ▸ List.prefix_append target more) from_target
    · rwa [moved_of_not_below carried] at arrived
  · rintro rfl
    exact moved_of_not_below from_source target

/-- Nothing is left where something was moved away. -/
private theorem find?_move_source (hs : source ≠ []) (apart : ¬ target <+: source)
    (apart' : ¬ source <+: target) (rest : Place) :
    (t.move source target).find? (source ++ rest) = none := by
  rw [find?_eq_none_iff (by simp [hs])]
  intro e mem named
  obtain ⟨old, _, rfl⟩ := List.mem_map.1 mem
  dsimp only at named
  by_cases carried : source <+: old.1
  · obtain ⟨more, eq⟩ := carried
    rw [← eq, moved_append] at named
    have both : target <+: source ++ rest := named ▸ List.prefix_append target more
    rcases List.prefix_or_prefix_of_prefix both (List.prefix_append source rest) with h | h
    · exact apart h
    · exact apart' h
  · rw [moved_of_not_below carried] at named
    exact carried (named ▸ List.prefix_append source rest)

/-- A directory is not below what is in it. -/
theorem not_below_entry (directory : Place) (name : Name) :
    ¬ directory ++ [name] <+: directory := by
  intro inside
  have short := inside.length_le
  rw [List.length_append, List.length_singleton] at short
  omega

/-- Neither place is at or below the other one. -/
structure Unrelated (p q : Place) : Prop where
  not_below : ¬ p <+: q
  not_above : ¬ q <+: p

theorem unrelated_of_ne {a b : Name} (h : a ≠ b) (directory : Place) :
    Unrelated (directory ++ [a]) (directory ++ [b]) where
  not_below inside := h (by simpa [List.prefix_append_right_inj] using inside)
  not_above inside := h.symm (by simpa [List.prefix_append_right_inj] using inside)

namespace Unrelated

variable {p q : Place} (h : Unrelated p q)
include h

theorem symm : Unrelated q p := ⟨h.not_above, h.not_below⟩

theorem not_prefix_append (rest : Place) : ¬ p <+: q ++ rest := by
  intro inside
  rcases List.prefix_or_prefix_of_prefix inside (List.prefix_append q rest) with below | above
  · exact h.not_below below
  · exact h.not_above above

theorem append_ne (rest : Place) : q ++ rest ≠ p :=
  fun eq => h.not_prefix_append rest (eq ▸ List.prefix_rfl)

theorem ne : q ≠ p :=
  fun eq => h.not_below (eq ▸ List.prefix_rfl)

end Unrelated

/-- What is moved away leaves nothing, arrives as it was, and changes nothing else. -/
theorem find?_move (hs : source ≠ []) (ht : target ≠ []) (apart : Unrelated source target)
    (free : ∀ rest, t.find? (target ++ rest) = none) :
    (∀ rest, (t.move source target).find? (target ++ rest) = t.find? (source ++ rest)) ∧
    (∀ rest, (t.move source target).find? (source ++ rest) = none) ∧
    ∀ place, ¬ source <+: place → ¬ target <+: place →
      (t.move source target).find? place = t.find? place := by
  have unlisted : ∀ e ∈ t, ¬ target <+: e.1 := by
    rintro e mem ⟨rest, eq⟩
    have there := find?_ne_none_of_mem mem
    rw [← eq] at there
    exact there (free rest)
  refine ⟨fun rest => ?_, fun rest => ?_, fun place => find?_move_of_apart⟩
  · exact find?_move_append hs ht unlisted rest
  · exact find?_move_source hs apart.not_above apart.not_below rest

/-- Where nothing stood below a place, nothing stands at it or below it once it is taken out. -/
theorem find?_delete_append (h : place ≠ [])
    (bare : ∀ rest, rest ≠ [] → t.find? (place ++ rest) = none) (rest : Place) :
    (t.delete place).find? (place ++ rest) = none := by
  by_cases last : rest = []
  · rw [last, List.append_nil]
    exact find?_delete_self t h
  · have longer : place ++ rest ≠ place := by
      simp [last]
    rw [find?_delete_ne t longer]
    exact bare rest last

theorem find?_append_of_not_hasBelow (h : place ≠ []) (bare : t.hasBelow place = false)
    (rest : Place) (filled : rest ≠ []) : t.find? (place ++ rest) = none := by
  rw [find?_eq_none_iff (by simp [h])]
  intro e mem eq
  have inside : place.isPrefixOf e.1 = true :=
    List.isPrefixOf_iff_prefix.2 (eq ▸ List.prefix_append place rest)
  have longer : (e.1 != place) = true := by
    simp [eq, filled]
  have busy : t.hasBelow place = true := List.any_eq_true.2 ⟨e, mem, by rw [inside, longer]; rfl⟩
  rw [bare] at busy
  cases busy

/-! ### Trees that are in order -/

/-- What a thing in a directory may be called. -/
structure IsName (name : Name) : Prop where
  filled : name ≠ []
  slashless : slash ∉ name
  nulless : 0 ∉ name
  here : name ≠ dotName
  up : name ≠ dotsName

/-- Each place stands once and in a directory, and the root is not listed. -/
structure InOrder (t : Tree) : Prop where
  listed : ∀ e ∈ t, e.1 ≠ []
  once : (t.map Prod.fst).Nodup
  housed : ∀ e ∈ t, t.find? e.1.dropLast = some .directory
  named : ∀ e ∈ t, ∀ name ∈ e.1, IsName name

instance (name : Name) : Decidable (IsName name) :=
  decidable_of_iff (name ≠ [] ∧ slash ∉ name ∧ 0 ∉ name ∧ name ≠ dotName ∧
    name ≠ dotsName) ⟨fun ⟨a, b, c, d, e⟩ => ⟨a, b, c, d, e⟩, fun ⟨a, b, c, d, e⟩ =>
      ⟨a, b, c, d, e⟩⟩

instance (t : Tree) : Decidable t.InOrder :=
  decidable_of_iff ((∀ e ∈ t, e.1 ≠ []) ∧ (t.map Prod.fst).Nodup ∧
    (∀ e ∈ t, t.find? e.1.dropLast = some .directory) ∧ ∀ e ∈ t, ∀ name ∈ e.1, IsName name)
    ⟨fun ⟨a, b, c, d⟩ => ⟨a, b, c, d⟩, fun ⟨a, b, c, d⟩ => ⟨a, b, c, d⟩⟩

namespace InOrder

theorem find?_of_mem (order : t.InOrder) {e : Place × Node} (mem : e ∈ t) :
    t.find? e.1 = some e.2 :=
  find?_of_once order.once (order.listed e mem) mem

/-- Everything stands in directories all the way up. -/
theorem directory_of_below (order : t.InOrder) {rest : Place} (filled : rest ≠ [])
    (there : t.find? (place ++ rest) ≠ none) : t.find? place = some .directory := by
  induction rest using List.reverseRecOn with
  | nil => exact absurd rfl filled
  | append_singleton rest name ih =>
    rw [← List.append_assoc] at there
    obtain ⟨node, found⟩ := Option.ne_none_iff_exists'.1 there
    have mem := mem_of_find? (by simp) found
    have housed := order.housed _ mem
    rw [List.dropLast_concat] at housed
    by_cases last : rest = []
    · rwa [last, List.append_nil] at housed
    · exact ih last (by simp [housed])

/-- Nothing stands below what is not a directory. -/
theorem find?_below (order : t.InOrder) {rest : Place} (filled : rest ≠ [])
    (here : t.find? place ≠ some .directory) : t.find? (place ++ rest) = none := by
  by_contra there
  exact here (order.directory_of_below filled there)

/-- With what is not a directory nothing else is taken away. -/
theorem deleteAll_eq_delete (order : t.InOrder) (real : t.find? place ≠ some .directory) :
    t.deleteAll place = t.delete place := by
  refine List.filter_congr fun e mem => ?_
  by_cases same : e.1 = place
  · simp [same]
  · have outside : place.isPrefixOf e.1 = false := by
      refine Bool.eq_false_iff.2 fun inside => ?_
      obtain ⟨rest, eq⟩ := List.isPrefixOf_iff_prefix.1 inside
      have filled : rest ≠ [] := by
        rintro rfl
        exact same (eq.symm.trans (List.append_nil _))
      have found := order.find?_of_mem mem
      rw [← eq, order.find?_below filled real] at found
      cases found
    rw [outside]
    simp [same]

end InOrder

/-- Every node of the first tree stands in the second one too. -/
def Within (s t : Tree) : Prop :=
  ∀ place node, s.find? place = some node → t.find? place = some node

/-- What is put where nothing stood takes nothing away. -/
theorem within_put {gap : Place} (free : t.find? gap = none) (node : Node) :
    Within t (t.put gap node) := by
  intro place old found
  have other : place ≠ gap := by
    rintro rfl
    rw [free] at found
    cases found
  rw [find?_put_ne other]
  exact found

end ModBench.Files.Tree
