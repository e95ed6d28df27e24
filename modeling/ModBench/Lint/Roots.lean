import ModBench.Path

/-!
Workspace roots.  A document belongs to the deepest root that contains it.
-/

set_option autoImplicit false
set_option relaxedAutoImplicit false

namespace ModBench

/-- The number of components of a path. -/
def Path.depth (p : Path) : Nat :=
  p.components.length

/-- The later of two roots unless the earlier one is deeper. -/
def deeper (best : Option Path) (root : Path) : Option Path :=
  match best with
  | none => some root
  | some old => if old.depth ≤ root.depth then some root else some old

/-- The deepest of the roots that contain a path; the last of those equally deep. -/
def workspaceRoot? (roots : List Path) (p : Path) : Option Path :=
  (roots.filter fun root => p.startsWith root).foldl deeper none

example : (workspaceRoot? [Path.ofString "/ws/lib", Path.ofString "/ws"]
    (Path.ofString "/ws/lib/a.reds")).map Path.toString = some "/ws/lib" := by decide

end ModBench
