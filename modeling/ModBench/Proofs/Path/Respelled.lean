import Mathlib.Data.List.Forall2
import ModBench.Lint.Roots
import ModBench.Proofs.Path.Map
import ModBench.Proofs.Path.Spelling

/-!
Paths that are spelled differently.  Two maps with respelled keys and related values stay so under
every operation with respelled paths, and find related values.
-/

set_option autoImplicit false
set_option relaxedAutoImplicit false

namespace ModBench

namespace Path

/-- The second path has the components of the first and may be spelled differently. -/
abbrev Respelled (p q : Path) : Prop := p.same q = true

variable {p p' q q' : Path}

theorem Respelled.same (h : p.Respelled p') (k : q.Respelled q') : p.same q = p'.same q' := by
  rw [same_congr h, same_comm p', same_congr k, same_comm q']

theorem Respelled.compare (h : p.Respelled p') (k : q.Respelled q') :
    p.compare q = p'.compare q' := by
  rw [Path.compare, Path.compare, same_iff.1 h, same_iff.1 k]

private theorem Respelled.startsWith (h : p.Respelled p') (k : q.Respelled q') :
    p.startsWith q = p'.startsWith q' := by
  rw [Path.startsWith, Path.startsWith, same_iff.1 h, same_iff.1 k]

private theorem Respelled.depth (h : p.Respelled p') : p.depth = p'.depth := by
  rw [Path.depth, Path.depth, same_iff.1 h]

end Path

namespace PathMap

variable {α β : Type} {related : α → β → Prop}

/-- The keys are respelled, one by one, and the values related. -/
def Respelled (related : α → β → Prop) (m : PathMap α) (m' : PathMap β) : Prop :=
  List.Forall₂ (fun e e' => e.1.Respelled e'.1 ∧ related e.2 e'.2) m m'

namespace Respelled

variable {m : PathMap α} {m' : PathMap β} {p p' : Path}

theorem find? (h : Respelled related m m') (same : p.Respelled p') :
    Option.Rel related (m.find? p) (m'.find? p') := by
  induction h with
  | nil => exact .none
  | cons first _ ih =>
    rw [find?_cons, find?_cons, same.same first.1]
    split
    · exact .some first.2
    · exact ih

theorem contains (h : Respelled related m m') (same : p.Respelled p') :
    m.contains p = m'.contains p' := by
  unfold PathMap.contains
  generalize m.find? p = found, m'.find? p' = found', h.find? same = agree
  cases agree <;> rfl

theorem upsert (h : Respelled related m m') (same : p.Respelled p') {f : Option α → α}
    {f' : Option β → β}
    (agree : ∀ old old', Option.Rel related old old' → related (f old) (f' old')) :
    Respelled related (m.upsert p f) (m'.upsert p' f') := by
  induction h with
  | nil => exact .cons ⟨same, agree none none .none⟩ .nil
  | cons first rest ih =>
    rw [PathMap.upsert, PathMap.upsert, same.compare first.1]
    split
    · exact .cons ⟨same, agree none none .none⟩ (.cons first rest)
    · exact .cons ⟨first.1, agree _ _ (.some first.2)⟩ rest
    · exact .cons first ih

theorem insert (h : Respelled related m m') (same : p.Respelled p') {a : α} {b : β}
    (r : related a b) : Respelled related (m.insert p a) (m'.insert p' b) :=
  h.upsert same fun _ _ _ => r

theorem map (h : Respelled related m m') (f : α → α) (f' : β → β)
    (agree : ∀ a b, related a b → related (f a) (f' b)) :
    Respelled related (m.map fun e => (e.1, f e.2)) (m'.map fun e => (e.1, f' e.2)) :=
  List.rel_map (fun _ _ r => ⟨r.1, agree _ _ r.2⟩) h

theorem adjust (h : Respelled related m m') (same : p.Respelled p') (f : α → α) (f' : β → β)
    (agree : ∀ a b, related a b → related (f a) (f' b)) :
    Respelled related (m.adjust p f) (m'.adjust p' f') := by
  refine List.rel_map (fun e e' r => ⟨r.1, ?_⟩) h
  dsimp only
  rw [same.same r.1]
  split
  · exact agree _ _ r.2
  · exact r.2

theorem erase (h : Respelled related m m') (same : p.Respelled p') :
    Respelled related (m.erase p) (m'.erase p') := by
  refine List.rel_filter (fun e e' r => ?_) h
  dsimp only
  rw [same.same r.1]

theorem keys (h : Respelled related m m') : List.Forall₂ Path.Respelled m.keys m'.keys :=
  List.rel_map (fun _ _ r => r.1) h

/-- Ranks go by components, and so do not see how a path is spelled. -/
private theorem insertByRank (rank : Rank) {p p' : Path} (same : p.Respelled p')
    {paths paths' : List Path} (h : List.Forall₂ Path.Respelled paths paths') :
    List.Forall₂ Path.Respelled (PathMap.insertByRank rank p paths)
      (PathMap.insertByRank rank p' paths') := by
  induction h with
  | nil => exact .cons same .nil
  | @cons q q' rest rest' first more ih =>
    unfold PathMap.insertByRank
    rw [Path.same_iff.1 same, Path.same_iff.1 first]
    split
    · exact .cons same (.cons first more)
    · exact .cons first ih

theorem keysBy (rank : Rank) (h : Respelled related m m') :
    List.Forall₂ Path.Respelled (m.keysBy rank) (m'.keysBy rank) := by
  have keys := h.keys
  unfold PathMap.keysBy
  generalize m.keys = paths, m'.keys = paths' at keys
  induction keys with
  | nil => exact .nil
  | cons same _ ih => exact insertByRank rank same ih

theorem length_eq (h : Respelled related m m') : m.length = m'.length :=
  List.Forall₂.length_eq h

end Respelled

end PathMap

/-- Respelled roots and paths give respelled roots. -/
theorem workspaceRoot?_respelled {roots roots' : List Path} {p p' : Path}
    (h : List.Forall₂ Path.Respelled roots roots') (same : p.Respelled p') :
    Option.Rel Path.Respelled (workspaceRoot? roots p) (workspaceRoot? roots' p') := by
  have inside : List.Forall₂ Path.Respelled (roots.filter fun root => p.startsWith root)
      (roots'.filter fun root => p'.startsWith root) := by
    refine List.rel_filter (fun root root' r => ?_) h
    dsimp only
    rw [same.startsWith r]
  refine List.rel_foldl (fun best best' agree root root' r => ?_) .none inside
  cases agree with
  | none => exact .some r
  | some old =>
    unfold deeper
    dsimp only
    rw [old.depth, r.depth]
    split
    · exact .some r
    · exact .some old

end ModBench
