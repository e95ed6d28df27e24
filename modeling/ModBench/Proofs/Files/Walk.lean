import ModBench.Files.Walk
import ModBench.Proofs.Files.Tree

/-!
Walks through trees.  Steps that can all be taken lead to a place, and a walk over more steps goes
on from there.  Where steps lead in one tree they lead in every tree that has the same things and
more.
-/

set_option autoImplicit false
set_option relaxedAutoImplicit false

namespace ModBench.Files.Tree

variable {t s : Tree} {follow : Bool} {links left : Nat} {here place : Place}
  {steps rest front back : List Name} {name : Name}

/-! ### Single steps -/

@[simp] theorem walk_nil (t : Tree) (follow : Bool) (links : Nat) (here : Place) :
    t.walk follow links here [] = .ok (.node here) := by
  cases links <;> rfl

theorem walk_cons (t : Tree) (follow : Bool) (links : Nat) (here : Place) (name : Name)
    (rest : List Name) :
    t.walk follow links here (name :: rest) =
      if t.find? here ≠ some .directory then .error .notADirectory
      else if name = dotName then t.walk follow links here rest
      else if name = dotsName then t.walk follow links here.dropLast rest
      else if maxNameLength < name.length then .error .nameTooLong
      else
        match t.find? (here ++ [name]) with
        | none => if rest = [] then .ok (.vacant here name) else .error .notFound
        | some (.link target) =>
          if rest = [] ∧ follow = false then .ok (.node (here ++ [name]))
          else
            match links with
            | 0 => .error .tooManyLinks
            | links + 1 =>
              t.walk follow links (if target.isAbsolute then [] else here)
                (lookupSteps target ++ rest)
        | some _ => t.walk follow links (here ++ [name]) rest := by
  cases links <;> rfl

/-- What holds of a walk without steps, and of every walk whose later parts it holds of, holds of
all walks: each step and each link brings the end nearer. -/
theorem walk_induction {motive : Nat → Place → List Name → Prop}
    (nil : ∀ links here, motive links here [])
    (cons : ∀ links here name rest, (∀ here, motive links here rest) →
      (∀ fewer < links, ∀ here steps, motive fewer here steps) →
      motive links here (name :: rest))
    (links : Nat) (here : Place) (steps : List Name) : motive links here steps := by
  induction links using Nat.strongRecOn generalizing here steps with
  | ind links fewer =>
    induction steps generalizing here with
    | nil => exact nil links here
    | cons name rest ih => exact cons links here name rest ih fewer

/-- A name that is looked up, and not one of the two that every directory has. -/
structure Looked (name : Name) : Prop where
  here : name ≠ dotName
  up : name ≠ dotsName
  short : name.length ≤ maxNameLength

theorem walk_looked (housed : t.find? here = some .directory) (looked : Looked name) :
    t.walk follow links here (name :: rest) =
      match t.find? (here ++ [name]) with
      | none => if rest = [] then .ok (.vacant here name) else .error .notFound
      | some (.link target) =>
        if rest = [] ∧ follow = false then .ok (.node (here ++ [name]))
        else
          match links with
          | 0 => .error .tooManyLinks
          | links + 1 =>
            t.walk follow links (if target.isAbsolute then [] else here)
              (lookupSteps target ++ rest)
      | some _ => t.walk follow links (here ++ [name]) rest := by
  rw [walk_cons, if_neg (not_not_intro housed), if_neg looked.here, if_neg looked.up,
    if_neg (Nat.not_lt.2 looked.short)]

/-- The last step of a walk that does not follow a link at its end. -/
theorem walk_last (housed : t.find? here = some .directory) (looked : Looked name) :
    t.walk false links here [name] =
      if t.find? (here ++ [name]) = none then .ok (.vacant here name)
      else .ok (.node (here ++ [name])) := by
  rw [walk_looked housed looked]
  cases t.find? (here ++ [name]) with
  | none => rfl
  | some node => cases node <;> simp

theorem walk_last_long (housed : t.find? here = some .directory) (dot : name ≠ dotName)
    (up : name ≠ dotsName) (long : maxNameLength < name.length) :
    t.walk follow links here [name] = .error .nameTooLong := by
  rw [walk_cons, if_neg (not_not_intro housed), if_neg dot, if_neg up, if_pos long]

/-- A directory is where it is. -/
theorem walk_dot (t : Tree) (follow : Bool) (links : Nat) (here : Place) :
    t.walk follow links here [dotName] =
      if t.find? here = some .directory then .ok (.node here) else .error .notADirectory := by
  rw [walk_cons]
  by_cases housed : t.find? here = some .directory
  · simp [housed]
  · simp [housed]

/-- How the first step of a walk that succeeds is taken. -/
inductive Taken (t : Tree) (follow : Bool) (links : Nat) (here : Place) (name : Name)
    (rest : List Name) (landing : Landing) : Prop
  | here (dot : name = dotName) (more : t.walk follow links here rest = .ok landing)
  | up (dots : name = dotsName) (more : t.walk follow links here.dropLast rest = .ok landing)
  | vacant (looked : Looked name) (last : rest = []) (ends : landing = .vacant here name)
    (free : t.find? (here ++ [name]) = none)
  | stop (looked : Looked name) (last : rest = []) (halts : follow = false)
    (ends : landing = .node (here ++ [name]))
  | enter (looked : Looked name) {node : Node} (found : t.find? (here ++ [name]) = some node)
    (real : ∀ target, node ≠ .link target)
    (more : t.walk follow links (here ++ [name]) rest = .ok landing)
  | through (looked : Looked name) {target : Path} {fewer : Nat} (count : links = fewer + 1)
    (found : t.find? (here ++ [name]) = some (.link target))
    (more : t.walk follow fewer (if target.isAbsolute then [] else here)
      (lookupSteps target ++ rest) = .ok landing)

/-- A walk that succeeds begins in a directory, and its first step is taken in one of these ways. -/
theorem taken_of_walk {landing : Landing}
    (walked : t.walk follow links here (name :: rest) = .ok landing) :
    t.find? here = some .directory ∧ Taken t follow links here name rest landing := by
  rw [walk_cons] at walked
  split at walked
  · cases walked
  rename_i housed
  refine ⟨not_not.1 housed, ?_⟩
  split at walked
  · rename_i dot
    exact .here dot walked
  rename_i dot
  split at walked
  · rename_i dots
    exact .up dots walked
  rename_i dots
  split at walked
  · cases walked
  rename_i long
  have looked : Looked name := ⟨dot, dots, Nat.not_lt.1 long⟩
  cases found : t.find? (here ++ [name]) with
  | none =>
    rw [found] at walked
    dsimp only at walked
    split at walked
    · rename_i last
      exact .vacant looked last (Except.ok.inj walked).symm found
    · cases walked
  | some node =>
    rw [found] at walked
    cases node with
    | file => exact .enter looked found (by simp) walked
    | directory => exact .enter looked found (by simp) walked
    | link target =>
      dsimp only at walked
      split at walked
      · rename_i stops
        exact .stop looked stops.1 stops.2 (Except.ok.inj walked).symm
      · cases links with
        | zero => cases walked
        | succ links => exact .through looked rfl found walked

/-- Names that lead to what is no link are walked one by one. -/
theorem InOrder.walk_names (order : t.InOrder) {names : List Name} {goal : Place} {node : Node}
    (named : ∀ name ∈ names, IsName name) (found : t.find? (here ++ names) = some node)
    (real : ∀ target, node ≠ .link target)
    (walked : t.walk true links here names = .ok (.node goal)) : goal = here ++ names := by
  induction names generalizing here with
  | nil =>
    rw [walk_nil] at walked
    rw [List.append_nil, Landing.node.inj (Except.ok.inj walked)]
  | cons name rest ih =>
    have first := named name List.mem_cons_self
    have grouped : here ++ name :: rest = here ++ [name] ++ rest := by simp
    rw [grouped] at found ⊢
    obtain ⟨_, taken⟩ := taken_of_walk walked
    cases taken with
    | here dot => exact absurd dot first.here
    | up dots => exact absurd dots first.up
    | vacant _ _ ends => cases ends
    | stop _ _ halts => cases halts
    | enter _ _ _ more => exact ih (fun n mem => named n (List.mem_cons_of_mem _ mem)) found more
    | through _ _ link =>
      by_cases last : rest = []
      · rw [last, List.append_nil, link] at found
        exact absurd (Option.some.inj found).symm (real _)
      · have directory := order.directory_of_below last (found ▸ Option.some_ne_none node)
        rw [link] at directory
        cases directory

/-! ### Steps that can be taken -/

/-- Steps lead from a place to another one, all links followed; the numbers say how many links may
be followed before and after. -/
inductive Leads (t : Tree) : Nat → Place → List Name → Nat → Place → Prop
  | stay (links : Nat) (here : Place) : Leads t links here [] links here
  | here {links left : Nat} {here goal : Place} {rest : List Name}
    (housed : t.find? here = some .directory) (more : Leads t links here rest left goal) :
    Leads t links here (dotName :: rest) left goal
  | up {links left : Nat} {here goal : Place} {rest : List Name}
    (housed : t.find? here = some .directory) (more : Leads t links here.dropLast rest left goal) :
    Leads t links here (dotsName :: rest) left goal
  | enter {links left : Nat} {here goal : Place} {rest : List Name} {name : Name} {node : Node}
    (housed : t.find? here = some .directory) (looked : Looked name)
    (found : t.find? (here ++ [name]) = some node) (real : ∀ target, node ≠ .link target)
    (more : Leads t links (here ++ [name]) rest left goal) :
    Leads t links here (name :: rest) left goal
  | through {links left : Nat} {here goal : Place} {rest : List Name} {name : Name} {target : Path}
    (housed : t.find? here = some .directory) (looked : Looked name)
    (found : t.find? (here ++ [name]) = some (.link target))
    (more : Leads t links (if target.isAbsolute then [] else here) (lookupSteps target ++ rest)
      left goal) :
    Leads t (links + 1) here (name :: rest) left goal

namespace Leads

theorem trans {last : Nat} {goal : Place} (first : t.Leads links here front left place)
    (second : t.Leads left place back last goal) :
    t.Leads links here (front ++ back) last goal := by
  induction first with
  | stay => exact second
  | here housed _ ih => exact .here housed (ih second)
  | up housed _ ih => exact .up housed (ih second)
  | enter housed looked found real _ ih => exact .enter housed looked found real (ih second)
  | through housed looked found _ ih =>
    have rest := ih second
    rw [List.append_assoc] at rest
    exact .through housed looked found rest

/-- Where steps lead, the first of them lead somewhere on the way. -/
theorem split {goal : Place} (led : t.Leads links here steps left goal) {front back : List Name}
    (eq : steps = front ++ back) :
    ∃ between place, t.Leads links here front between place ∧
      t.Leads between place back left goal := by
  induction led generalizing front with
  | stay links here =>
    obtain ⟨rfl, rfl⟩ := List.append_eq_nil_iff.1 eq.symm
    exact ⟨links, here, .stay links here, .stay links here⟩
  | here housed more ih =>
    cases front with
    | nil =>
      rw [List.nil_append] at eq
      exact ⟨_, _, .stay _ _, eq ▸ .here housed more⟩
    | cons name front =>
      obtain ⟨rfl, rfl⟩ := List.cons.inj eq
      obtain ⟨between, place, first, second⟩ := ih rfl
      exact ⟨between, place, .here housed first, second⟩
  | up housed more ih =>
    cases front with
    | nil =>
      rw [List.nil_append] at eq
      exact ⟨_, _, .stay _ _, eq ▸ .up housed more⟩
    | cons name front =>
      obtain ⟨rfl, rfl⟩ := List.cons.inj eq
      obtain ⟨between, place, first, second⟩ := ih rfl
      exact ⟨between, place, .up housed first, second⟩
  | enter housed looked found real more ih =>
    cases front with
    | nil =>
      rw [List.nil_append] at eq
      exact ⟨_, _, .stay _ _, eq ▸ .enter housed looked found real more⟩
    | cons name front =>
      obtain ⟨rfl, rfl⟩ := List.cons.inj eq
      obtain ⟨between, place, first, second⟩ := ih rfl
      exact ⟨between, place, .enter housed looked found real first, second⟩
  | through housed looked found more ih =>
    cases front with
    | nil =>
      rw [List.nil_append] at eq
      exact ⟨_, _, .stay _ _, eq ▸ .through housed looked found more⟩
    | cons name front =>
      obtain ⟨rfl, rfl⟩ := List.cons.inj eq
      obtain ⟨between, place, first, second⟩ := ih (List.append_assoc _ _ _).symm
      exact ⟨between, place, .through housed looked found first, second⟩

/-- A walk over more steps goes on from where the first ones lead. -/
theorem walk_append (led : t.Leads links here front left place) (follow : Bool)
    (more : back ≠ []) :
    t.walk follow links here (front ++ back) = t.walk follow left place back := by
  induction led with
  | stay => rfl
  | here housed _ ih =>
    rw [List.cons_append, walk_cons, if_neg (not_not_intro housed), if_pos rfl, ih]
  | up housed _ ih =>
    rw [List.cons_append, walk_cons, if_neg (not_not_intro housed), if_neg dotsName_ne_dotName,
      if_pos rfl, ih]
  | enter housed looked found real _ ih =>
    rw [List.cons_append, walk_looked housed looked, found, ← ih]
    rename_i node _
    cases node with
    | file => rfl
    | directory => rfl
    | link target => exact absurd rfl (real target)
  | through housed looked found _ ih =>
    rw [List.cons_append, walk_looked housed looked, found, ← ih, List.append_assoc]
    exact if_neg (by simp [more])

/-- A walk that follows links ends where its steps lead. -/
theorem walk_true (led : t.Leads links here steps left place) :
    t.walk true links here steps = .ok (.node place) := by
  induction led with
  | stay => exact walk_nil _ _ _ _
  | here housed _ ih => rw [walk_cons, if_neg (not_not_intro housed), if_pos rfl, ih]
  | up housed _ ih =>
    rw [walk_cons, if_neg (not_not_intro housed), if_neg dotsName_ne_dotName, if_pos rfl, ih]
  | enter housed looked found real _ ih =>
    rw [walk_looked housed looked, found, ← ih]
    rename_i node _
    cases node with
    | file => rfl
    | directory => rfl
    | link target => exact absurd rfl (real target)
  | through housed looked found _ ih =>
    rw [walk_looked housed looked, found, ← ih]
    exact if_neg (by simp)

/-- Steps that lead to a directory begin in one. -/
theorem start_housed (led : t.Leads links here steps left place)
    (housed : t.find? place = some .directory) : t.find? here = some .directory := by
  cases led with
  | stay => exact housed
  | here housed => exact housed
  | up housed => exact housed
  | enter housed => exact housed
  | through housed => exact housed

/-- Steps lead to the same place where the same things and more are found. -/
theorem mono (within : Within s t) (led : s.Leads links here steps left place) :
    t.Leads links here steps left place := by
  induction led with
  | stay => exact .stay _ _
  | here housed _ ih => exact .here (within _ _ housed) ih
  | up housed _ ih => exact .up (within _ _ housed) ih
  | enter housed looked found real _ ih =>
    exact .enter (within _ _ housed) looked (within _ _ found) real ih
  | through housed looked found _ ih =>
    exact .through (within _ _ housed) looked (within _ _ found) ih

/-- Steps that can be taken in a second tree too, which lacks a place and has what the first one has
elsewhere, do not need that place. -/
theorem avoid {place : Place} {left' : Nat} {goal goal' : Place}
    (led : t.Leads links here steps left goal) (other : s.Leads links here steps left' goal')
    (gone : ∀ rest, s.find? (place ++ rest) = none)
    (kept : ∀ p, ¬ place <+: p → t.find? p ≠ none → s.find? p = t.find? p) :
    (t.deleteAll place).Leads links here steps left goal := by
  have apart : ∀ {p : Place} {node : Node}, s.find? p = some node → ¬ place <+: p := by
    rintro p node found ⟨rest, rfl⟩
    rw [gone rest] at found
    cases found
  have stays : ∀ {p : Place} {node node' : Node}, s.find? p = some node' → t.find? p = some node →
      (t.deleteAll place).find? p = some node ∧ node' = node := by
    intro p node node' there found
    have same := kept p (apart there) (by simp [found])
    rw [there, found] at same
    exact ⟨(find?_deleteAll_of_not_below (apart there)).trans found, Option.some.inj same⟩
  -- Both trees have every place that is come to, so the second one's steps are the first one's.
  induction led with
  | stay => exact .stay _ _
  | here housed _ ih =>
    cases other with
    | here housed' more => exact .here (stays housed' housed).1 (ih more)
    | enter _ looked => exact absurd rfl looked.here
    | through _ looked => exact absurd rfl looked.here
  | up housed _ ih =>
    cases other with
    | up housed' more => exact .up (stays housed' housed).1 (ih more)
    | enter _ looked => exact absurd rfl looked.up
    | through _ looked => exact absurd rfl looked.up
  | enter housed looked found real _ ih =>
    cases other with
    | here => exact absurd rfl looked.here
    | up => exact absurd rfl looked.up
    | enter housed' _ found' _ more =>
      exact .enter (stays housed' housed).1 looked (stays found' found).1 real (ih more)
    | through _ _ found' => exact absurd (stays found' found).2.symm (real _)
  | through housed looked found _ ih =>
    cases other with
    | here => exact absurd rfl looked.here
    | up => exact absurd rfl looked.up
    | enter _ _ found' real => exact absurd (stays found' found).2 (real _)
    | through housed' _ found' more =>
      obtain ⟨stands, eq⟩ := stays found' found
      obtain rfl := Node.link.inj eq
      exact .through (stays housed' housed).1 looked stands (ih more)

end Leads

/-- Where a walk ends that follows links, there its steps lead. -/
theorem leads_of_walk (walked : t.walk true links here steps = .ok (.node place)) :
    ∃ left, t.Leads links here steps left place := by
  induction links, here, steps using walk_induction with
  | nil links here =>
    rw [walk_nil] at walked
    obtain rfl := Landing.node.inj (Except.ok.inj walked)
    exact ⟨links, .stay links here⟩
  | cons links here name rest ih fewer =>
    obtain ⟨housed, taken⟩ := taken_of_walk walked
    cases taken with
    | here dot more =>
      obtain ⟨left, led⟩ := ih _ more
      exact ⟨left, dot ▸ .here housed led⟩
    | up dots more =>
      obtain ⟨left, led⟩ := ih _ more
      exact ⟨left, dots ▸ .up housed led⟩
    | vacant _ _ ends => cases ends
    | stop _ _ halts => cases halts
    | enter looked found real more =>
      obtain ⟨left, led⟩ := ih _ more
      exact ⟨left, .enter housed looked found real led⟩
    | through looked count found more =>
      obtain ⟨left, led⟩ := fewer _ (by omega) _ _ more
      exact ⟨left, count ▸ .through housed looked found led⟩

/-- The first steps of a walk that succeeds lead somewhere, if more steps follow. -/
theorem leads_of_walk_append {landing : Landing} (more : back ≠ [])
    (walked : t.walk follow links here (front ++ back) = .ok landing) :
    ∃ left place, t.Leads links here front left place := by
  induction links, here, front using walk_induction with
  | nil links here => exact ⟨links, here, .stay links here⟩
  | cons links here name rest ih fewer =>
    have unfinished : rest ++ back ≠ [] := by simp [more]
    rw [List.cons_append] at walked
    obtain ⟨housed, taken⟩ := taken_of_walk walked
    cases taken with
    | here dot further =>
      obtain ⟨left, place, led⟩ := ih _ further
      exact ⟨left, place, dot ▸ .here housed led⟩
    | up dots further =>
      obtain ⟨left, place, led⟩ := ih _ further
      exact ⟨left, place, dots ▸ .up housed led⟩
    | vacant _ last => exact absurd last unfinished
    | stop _ last => exact absurd last unfinished
    | enter looked found real further =>
      obtain ⟨left, place, led⟩ := ih _ further
      exact ⟨left, place, .enter housed looked found real led⟩
    | through looked count found further =>
      rw [← List.append_assoc] at further
      obtain ⟨left, place, led⟩ := fewer _ (by omega) _ _ further
      exact ⟨left, place, count ▸ .through housed looked found led⟩

/-- Single dots lead nowhere else. -/
theorem leads_dots {dots : List Name} (idle : ∀ dot ∈ dots, dot = dotName)
    (housed : t.find? here = some .directory) : t.Leads links here dots links here := by
  induction dots with
  | nil => exact .stay _ _
  | cons dot dots ih =>
    obtain rfl := idle dot List.mem_cons_self
    exact .here housed (ih fun d mem => idle d (List.mem_cons_of_mem _ mem))

/-- Single dots change nothing before another step. -/
theorem walk_dots {dots : List Name} (idle : ∀ dot ∈ dots, dot = dotName)
    (housed : t.find? here = some .directory) (more : back ≠ []) :
    t.walk follow links here (dots ++ back) = t.walk follow links here back :=
  (leads_dots idle housed).walk_append follow more

end ModBench.Files.Tree
