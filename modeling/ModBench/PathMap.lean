import ModBench.Path

/-!
Maps keyed by path.  Entries stand in path order, one for each class of component-equal paths; an
entry keeps the spelling under which it was first put in.
-/

set_option autoImplicit false
set_option relaxedAutoImplicit false

namespace ModBench

/-- Entries in path order, no two with the same components. -/
abbrev PathMap (α : Type) := List (Path × α)

namespace PathMap

variable {α β : Type}

/-- The map without entries. -/
def empty : PathMap α := []

/-- The value kept for a path. -/
def find? (p : Path) : PathMap α → Option α
  | [] => none
  | (q, a) :: rest => if p.same q then some a else find? p rest

def contains (p : Path) (m : PathMap α) : Bool :=
  (find? p m).isSome

/-- Change the entry for a path, or put one in where there is none. -/
def upsert (p : Path) (f : Option α → α) : PathMap α → PathMap α
  | [] => [(p, f none)]
  | (q, a) :: rest =>
    match p.compare q with
    | .lt => (p, f none) :: (q, a) :: rest
    | .eq => (q, f (some a)) :: rest
    | .gt => (q, a) :: upsert p f rest

/-- Put a value in for a path; an entry that is there keeps its spelling. -/
def insert (p : Path) (a : α) (m : PathMap α) : PathMap α :=
  upsert p (fun _ => a) m

/-- Change the value of a path that has an entry. -/
def adjust (p : Path) (f : α → α) (m : PathMap α) : PathMap α :=
  m.map fun (q, a) => (q, if p.same q then f a else a)

def erase (p : Path) (m : PathMap α) : PathMap α :=
  m.filter fun (q, _) => !p.same q

/-- The paths of the entries, in order. -/
def keys (m : PathMap α) : List Path :=
  m.map Prod.fst

/-- A number for each list of components.  A map that keeps its keys in no order of its own gives
them by such numbers, on which nothing is known. -/
abbrev Rank := List Component → Nat

/-- A path put before the first one in a list that does not rank below it. -/
def insertByRank (rank : Rank) (p : Path) : List Path → List Path
  | [] => [p]
  | q :: rest =>
    if rank p.components ≤ rank q.components then p :: q :: rest
    else q :: insertByRank rank p rest

/-- The paths of the entries, by their ranks. -/
def keysBy (rank : Rank) (m : PathMap α) : List Path :=
  m.keys.foldr (insertByRank rank) []

/-- All entries of the second map put into the first, one after the other. -/
def insertAll (m new : PathMap α) : PathMap α :=
  new.foldl (fun acc (p, a) => insert p a acc) m

end PathMap

end ModBench
