import Mathlib.Data.List.Basic
import ModBench.Lint.Run
import ModBench.Proofs.Path.Order

/-!
Spellings of paths.  What a path is made of can be read off its text piece by piece: joining puts
the components of two paths one after the other, and the parent of a path has all its components
but the last.  So nothing that is asked of a path depends on how the path is spelled.
-/

set_option autoImplicit false
set_option relaxedAutoImplicit false

namespace ModBench

/-! ### Cutting and joining -/

namespace Text

variable {α : Type} [DecidableEq α] {sep : α}

theorem split_of_apart {piece : List α} (apart : sep ∉ piece) : split sep piece = [piece] := by
  induction piece with
  | nil => rfl
  | cons c piece ih =>
    rw [List.mem_cons, not_or] at apart
    rw [split, if_neg (Ne.symm apart.1), ih apart.2]

/-- A text with a separator in it is cut there. -/
theorem split_append_sep (front text : List α) :
    split sep (front ++ sep :: text) = split sep front ++ split sep text := by
  induction front with
  | nil => simp [split]
  | cons c front ih =>
    rw [List.cons_append, split]
    split
    · rename_i eq
      rw [ih, split, if_pos eq]
      rfl
    · rename_i other
      rw [ih]
      conv_rhs => rw [split, if_neg other]
      cases cut : split sep front with
      | nil => exact absurd cut (split_ne_nil sep front)
      | cons piece pieces => rfl

/-- Pieces that were joined can be cut apart again. -/
theorem split_join {pieces : List (List α)} (filled : pieces ≠ [])
    (apart : ∀ piece ∈ pieces, sep ∉ piece) : split sep (join sep pieces) = pieces := by
  induction pieces with
  | nil => exact absurd rfl filled
  | cons piece pieces ih =>
    have first : sep ∉ piece := apart piece List.mem_cons_self
    by_cases last : pieces = []
    · rw [last]
      exact split_of_apart first
    · have rest := ih last fun piece mem => apart piece (List.mem_cons_of_mem _ mem)
      rw [join_cons sep piece last, split_append_sep, split_of_apart first, rest]
      rfl

omit [DecidableEq α] in
theorem join_append {front back : List (List α)} (front_filled : front ≠ [])
    (back_filled : back ≠ []) :
    join sep (front ++ back) = join sep front ++ sep :: join sep back := by
  induction front with
  | nil => exact absurd rfl front_filled
  | cons piece front ih =>
    by_cases last : front = []
    · rw [last]
      exact join_cons sep piece back_filled
    · have more : front ++ back ≠ [] := List.append_ne_nil_of_left_ne_nil last back
      rw [List.cons_append, join_cons sep piece more, ih last, join_cons sep piece last]
      simp

omit [DecidableEq α] in
/-- Joined pieces end as one of them does, if none is empty. -/
theorem mem_of_getLast?_join {pieces : List (List α)} {c : α}
    (filled : ∀ piece ∈ pieces, piece ≠ []) (ends : (join sep pieces).getLast? = some c) :
    ∃ piece ∈ pieces, c ∈ piece := by
  induction pieces with
  | nil => cases ends
  | cons piece pieces ih =>
    by_cases last : pieces = []
    · rw [last] at ends
      exact ⟨piece, List.mem_cons_self, List.mem_of_getLast? ends⟩
    · have more : join sep pieces ≠ [] := by
        obtain ⟨next, rest, rfl⟩ := List.exists_cons_of_ne_nil last
        have some_text := filled next (by simp)
        cases rest <;> simp [join, some_text]
      have grouped : join sep (piece :: pieces) = (piece ++ [sep]) ++ join sep pieces := by
        rw [join_cons sep piece last, List.append_assoc]
        rfl
      rw [grouped, List.getLast?_append_of_ne_nil _ more] at ends
      obtain ⟨other, mem, inside⟩ := ih (fun p mem => filled p (List.mem_cons_of_mem _ mem)) ends
      exact ⟨other, List.mem_cons_of_mem _ mem, inside⟩

end Text

namespace Path

open Text (split join)

/-! ### The start of a path -/

/-- The components that stretches between slashes contribute. -/
def namedIn (pieces : List (List UInt8)) : List Component :=
  pieces.filterMap componentOf

@[simp] theorem namedIn_append (front back : List (List UInt8)) :
    namedIn (front ++ back) = namedIn front ++ namedIn back :=
  List.filterMap_append

theorem components_eq (p : Path) : p.components =
    (cutStart p.bytes).1.components ++ namedIn (split slash (cutStart p.bytes).2) := rfl

/-- A path is its start and what follows. -/
theorem bytes_cutStart (bytes : List UInt8) :
    (cutStart bytes).1.bytes ++ (cutStart bytes).2 = bytes := by
  unfold cutStart
  split
  · rfl
  · split
    · rename_i slashed
      rw [slashed]
      rfl
    · split
      · rename_i here
        rw [here.1]
        rfl
      · rfl

/-- A name at the front is no start. -/
theorem cutStart_of_name {b : UInt8} {rest : List UInt8} (other : b ≠ slash)
    (named : ¬(b = dot ∧ (rest = [] ∨ rest.head? = some slash))) :
    cutStart (b :: rest) = (.nothing, b :: rest) := by
  rw [cutStart, if_neg other, if_neg named]

/-- What follows the start of a path may end early, at a slash. -/
private theorem cutStart_front {start : Start} {front tail : List UInt8}
    (cut : cutStart (start.bytes ++ (front ++ tail)) = (start, front ++ tail))
    (edge : tail = [] ∨ ∃ rest, tail = slash :: rest) :
    cutStart (start.bytes ++ front) = (start, front) := by
  rcases edge with rfl | ⟨rest, rfl⟩
  · rwa [List.append_nil] at cut
  · cases start with
    | slash => rfl
    | dot =>
      cases front with
      | nil => rfl
      | cons c front =>
        have slashed : c = slash := by
          by_contra other
          simp [Start.bytes, cutStart, other] at cut
        rw [slashed]
        rfl
    | nothing =>
      simp only [Start.bytes, List.nil_append] at cut ⊢
      rcases front with _ | ⟨c, _ | ⟨d, front⟩⟩
      · rfl
      · have not_slash : c ≠ slash := by
          rintro rfl
          simp [cutStart] at cut
        have not_dot : c ≠ dot := by
          rintro rfl
          simp [cutStart] at cut
        simp [cutStart, not_slash, not_dot]
      · have not_slash : c ≠ slash := by
          rintro rfl
          simp [cutStart] at cut
        have not_here : ¬(c = dot ∧ d = slash) := by
          rintro ⟨rfl, rfl⟩
          simp [cutStart] at cut
        exact cutStart_of_name not_slash (by simpa using not_here)

/-- What is added behind a slash goes to what follows the start. -/
theorem cutStart_append {bytes : List UInt8} (filled : bytes ≠ []) (rest : List UInt8) :
    cutStart (bytes ++ slash :: rest) =
      ((cutStart bytes).1, (cutStart bytes).2 ++ slash :: rest) := by
  rcases bytes with _ | ⟨c, _ | ⟨d, bytes⟩⟩
  · exact absurd rfl filled
  · by_cases slashed : c = slash
    · rw [slashed]
      rfl
    · by_cases dotted : c = dot
      · rw [dotted]
        rfl
      · simp [cutStart, slashed, dotted]
  · by_cases slashed : c = slash
    · rw [slashed]
      rfl
    · by_cases here : c = dot ∧ d = slash
      · rw [here.1, here.2]
        rfl
      · have whole : ∀ tail : List UInt8,
            cutStart (c :: d :: tail) = (.nothing, c :: d :: tail) := by
          intro tail
          exact cutStart_of_name slashed (by simpa using here)
        rw [List.cons_append, List.cons_append, whole, whole]
        rfl

theorem componentOf_eq_none {piece : List UInt8} (none : componentOf piece = none) :
    piece = [] ∨ piece = [dot] := by
  unfold componentOf at none
  split at none
  · assumption
  · split at none <;> cases none

theorem componentOf_ne_root (piece : List UInt8) : componentOf piece ≠ some .root := by
  unfold componentOf
  split_ifs <;> exact nofun

/-- Only the empty path has no components. -/
theorem components_eq_nil_iff {p : Path} : p.components = [] ↔ p.bytes = [] := by
  constructor
  · intro empty
    rw [components_eq, List.append_eq_nil_iff] at empty
    obtain ⟨no_start, no_names⟩ := empty
    have written := bytes_cutStart p.bytes
    cases cut : cutStart p.bytes with
    | mk start body =>
      rw [cut] at no_start no_names written
      dsimp only at no_start no_names written
      cases start with
      | slash => cases no_start
      | dot => cases no_start
      | nothing =>
        -- The first piece of such a text is neither empty nor a dot, unless there is no text.
        cases pieces : split slash body with
        | nil => exact absurd pieces (Text.split_ne_nil slash body)
        | cons piece rest =>
          rw [pieces] at no_names
          have first : componentOf piece = none := by
            by_contra some
            obtain ⟨c, eq⟩ := Option.ne_none_iff_exists'.1 some
            simp [namedIn, eq] at no_names
          have spelled := Text.join_split slash body
          rw [pieces] at spelled
          rw [← written, ← spelled] at cut ⊢
          rcases componentOf_eq_none first with rfl | rfl
          · cases rest with
            | nil => rfl
            | cons _ _ => simp [Start.bytes, Text.join, cutStart] at cut
          · cases rest with
            | nil => simp [Start.bytes, Text.join, cutStart] at cut
            | cons _ _ => simp [Start.bytes, Text.join, cutStart] at cut
  · intro empty
    rw [components_eq, empty]
    rfl

/-! ### Joining -/

theorem components_of_append {bytes : List UInt8} (filled : bytes ≠ []) (rest : List UInt8) :
    (⟨bytes ++ slash :: rest⟩ : Path).components =
      (⟨bytes⟩ : Path).components ++ namedIn (split slash rest) := by
  rw [components_eq, components_eq]
  dsimp only
  rw [cutStart_append filled, Text.split_append_sep, namedIn_append, List.append_assoc]

/-- A relative path that is joined to another adds the components of its pieces. -/
theorem components_join {base p : Path} (relative : p.isAbsolute = false)
    (filled : base.bytes ≠ []) :
    (base.join p).components = base.components ++ namedIn (split slash p.bytes) := by
  rw [join, if_neg (by simp [relative])]
  split
  · rename_i ends
    have slashed : base.bytes.getLast? = some slash := by
      simpa [filled] using ends
    obtain ⟨front, spelled⟩ := List.getLast?_eq_some_iff.1 slashed
    have shape : base = ⟨front ++ [slash]⟩ := by
      rw [← spelled]
    rw [shape]
    dsimp only
    rw [List.append_assoc]
    by_cases root : front = []
    · rw [root]
      rfl
    · rw [List.singleton_append, components_of_append root, components_of_append root]
      simp [split, namedIn, componentOf]
  · exact components_of_append filled p.bytes

theorem join_of_isAbsolute {p : Path} (absolute : p.isAbsolute = true) (base : Path) :
    base.join p = p := by
  rw [join, if_pos absolute]

theorem join_of_empty {base : Path} (empty : base.bytes = []) (p : Path) : base.join p = p := by
  rw [join]
  split
  · rfl
  · simp [empty]

/-- What stands between a path and one that is joined to it. -/
def gap (base : Path) : List UInt8 :=
  if base.bytes.isEmpty || base.bytes.getLast? == some slash then [] else [slash]

theorem join_of_relative {p : Path} (relative : p.isAbsolute = false) (base : Path) :
    base.join p = ⟨base.bytes ++ (base.gap ++ p.bytes)⟩ := by
  rw [join, if_neg (by simp [relative]), gap]
  split <;> rfl

theorem gap_append {bytes : List UInt8} (filled : bytes ≠ []) (front : List UInt8) :
    gap ⟨front ++ bytes⟩ = gap ⟨bytes⟩ := by
  simp [gap, filled]

private theorem gap_append_gap (base : Path) : gap ⟨base.bytes ++ base.gap⟩ = [] := by
  by_cases closed : (base.bytes.isEmpty || base.bytes.getLast? == some slash) = true
  · rw [gap, gap, if_pos closed, List.append_nil, if_pos closed]
  · rw [gap, gap, if_neg closed]
    simp

theorem isAbsolute_append {bytes : List UInt8} (filled : bytes ≠ []) (rest : List UInt8) :
    isAbsolute ⟨bytes ++ rest⟩ = isAbsolute ⟨bytes⟩ := by
  obtain ⟨c, bytes, rfl⟩ := List.exists_cons_of_ne_nil filled
  rfl

theorem isAbsolute_join {base p : Path} (relative : p.isAbsolute = false)
    (filled : base.bytes ≠ []) : (base.join p).isAbsolute = base.isAbsolute := by
  rw [join_of_relative relative, isAbsolute_append filled]

/-- Joining is associative, whatever slashes stand at the ends of the paths. -/
theorem join_assoc (a b c : Path) : (a.join b).join c = a.join (b.join c) := by
  cases c_absolute : c.isAbsolute with
  | true => simp only [join_of_isAbsolute c_absolute]
  | false =>
    by_cases empty : b.bytes = []
    · have relative : b.isAbsolute = false := by simp [isAbsolute, empty]
      rw [join_of_empty empty, join_of_relative relative, empty, join_of_relative c_absolute,
        join_of_relative c_absolute, List.append_nil, gap_append_gap]
      simp
    · have absolute := isAbsolute_join c_absolute empty
      cases b_absolute : b.isAbsolute with
      | true => rw [join_of_isAbsolute b_absolute, join_of_isAbsolute (absolute.trans b_absolute)]
      | false =>
        rw [join_of_relative (absolute.trans b_absolute), join_of_relative b_absolute,
          join_of_relative c_absolute, join_of_relative c_absolute]
        dsimp only
        rw [← List.append_assoc a.bytes, gap_append empty]
        simp

/-- Joining the same path to paths that are the same gives paths that are the same. -/
theorem join_congr {p q : Path} (same : p.same q = true) (r : Path) :
    (p.join r).same (q.join r) = true := by
  have components := same_iff.1 same
  cases absolute : r.isAbsolute with
  | true =>
    rw [join_of_isAbsolute absolute, join_of_isAbsolute absolute]
    exact same_refl r
  | false =>
    by_cases empty : p.bytes = []
    · have empty' : q.bytes = [] := by
        rw [← components_eq_nil_iff, ← components, components_eq_nil_iff]
        exact empty
      rw [join_of_empty empty, join_of_empty empty']
      exact same_refl r
    · have filled : q.bytes ≠ [] := by
        rw [ne_eq, ← components_eq_nil_iff, ← components, components_eq_nil_iff]
        exact empty
      rw [same_iff, components_join absolute empty, components_join absolute filled, components]

/-! ### Parents -/

/-- Only stretches that contribute nothing are dropped at the end. -/
theorem dropEmptyEnd_append (pieces : List (List UInt8)) :
    ∃ tail, pieces = dropEmptyEnd pieces ++ tail ∧ ∀ piece ∈ tail, componentOf piece = none := by
  induction pieces with
  | nil => exact ⟨[], rfl, fun _ mem => absurd mem List.not_mem_nil⟩
  | cons piece rest ih =>
    obtain ⟨tail, eq, idle⟩ := ih
    rw [dropEmptyEnd]
    cases kept : dropEmptyEnd rest with
    | nil =>
      rw [kept, List.nil_append] at eq
      by_cases none : componentOf piece = none
      · refine ⟨piece :: rest, by simp [none], ?_⟩
        rw [eq]
        exact List.forall_mem_cons.2 ⟨none, idle⟩
      · exact ⟨tail, by simp [none, eq], idle⟩
    | cons next more =>
      refine ⟨tail, ?_, idle⟩
      rw [kept] at eq
      rw [eq]
      rfl

/-- The last stretch that is kept contributes a component. -/
theorem dropEmptyEnd_cases (pieces : List (List UInt8)) : dropEmptyEnd pieces = [] ∨
    ∃ front last c, dropEmptyEnd pieces = front ++ [last] ∧ componentOf last = some c := by
  induction pieces with
  | nil => exact Or.inl rfl
  | cons piece rest ih =>
    rw [dropEmptyEnd]
    rcases ih with none | ⟨front, last, c, eq, here⟩
    · rw [none]
      dsimp only
      cases here : componentOf piece with
      | none => exact Or.inl rfl
      | some c => exact Or.inr ⟨[], piece, c, rfl, here⟩
    · right
      refine ⟨piece :: front, last, c, ?_, here⟩
      rw [eq]
      cases front <;> rfl

theorem namedIn_of_idle {tail : List (List UInt8)}
    (idle : ∀ piece ∈ tail, componentOf piece = none) : namedIn tail = [] :=
  List.filterMap_eq_nil_iff.2 idle

private theorem namedIn_dropEmptyEnd (pieces : List (List UInt8)) :
    namedIn (dropEmptyEnd pieces) = namedIn pieces := by
  obtain ⟨tail, eq, idle⟩ := dropEmptyEnd_append pieces
  conv_rhs => rw [eq, namedIn_append, namedIn_of_idle idle, List.append_nil]

/-- Pieces up to one of them, written behind the start of a path, are cut off there again. -/
theorem cutStart_of_pieces {bytes : List UInt8} {start : Start} {body : List UInt8}
    (cut : cutStart bytes = (start, body)) {front tail : List (List UInt8)} (filled : front ≠ [])
    (pieces : split slash body = front ++ tail) :
    cutStart (start.bytes ++ Text.join slash front) = (start, Text.join slash front) := by
  have written : start.bytes ++ body = bytes := by
    rw [← bytes_cutStart bytes, cut]
  have spelled : Text.join slash (front ++ tail) = body := by
    rw [← pieces, Text.join_split]
  by_cases whole : tail = []
  · rw [whole, List.append_nil] at spelled
    rw [spelled, written, cut]
  · have longer : Text.join slash (front ++ tail) =
        Text.join slash front ++ slash :: Text.join slash tail := Text.join_append filled whole
    rw [spelled] at longer
    have longer_cut : cutStart (start.bytes ++
        (Text.join slash front ++ slash :: Text.join slash tail)) =
          (start, Text.join slash front ++ slash :: Text.join slash tail) := by
      rw [← longer, written, cut]
    exact cutStart_front longer_cut (Or.inr ⟨_, rfl⟩)

/-- Such pieces are read as they are. -/
private theorem components_of_pieces {bytes : List UInt8} {start : Start} {body : List UInt8}
    (cut : cutStart bytes = (start, body)) {front tail : List (List UInt8)}
    (pieces : split slash body = front ++ tail) :
    (⟨start.bytes ++ Text.join slash front⟩ : Path).components =
      start.components ++ namedIn front := by
  have apart : ∀ piece ∈ front, slash ∉ piece := fun piece mem =>
    Text.not_mem_of_mem_split slash body piece (pieces ▸ List.mem_append_left tail mem)
  by_cases none : front = []
  · rw [none]
    cases start <;> rfl
  · rw [components_eq]
    dsimp only
    rw [cutStart_of_pieces cut none pieces, Text.split_join none apart]

/-- The parent has all components but the last. -/
theorem components_parent? (p : Path) :
    (p.parent? = none ∧ (p.components = [] ∨ p.components = [.root])) ∨
      ∃ parent c, p.parent? = some parent ∧ p.components = parent.components ++ [c] ∧
        c ≠ .root := by
  have whole := components_eq p
  cases cut : cutStart p.bytes with
  | mk start body =>
    rw [cut] at whole
    dsimp only at whole
    rw [← namedIn_dropEmptyEnd] at whole
    unfold parent?
    rw [cut]
    dsimp only
    rcases dropEmptyEnd_cases (split slash body) with none | ⟨front, last, c, eq, here⟩
    · rw [none] at whole ⊢
      cases start with
      | slash => exact Or.inl ⟨rfl, Or.inr whole⟩
      | dot => exact Or.inr ⟨empty, .here, rfl, whole, by decide⟩
      | nothing => exact Or.inl ⟨rfl, Or.inl whole⟩
    · right
      rw [eq] at whole
      obtain ⟨tail, pieces, _⟩ := dropEmptyEnd_append (split slash body)
      obtain ⟨tail', pieces', _⟩ := dropEmptyEnd_append front
      rw [eq, List.append_assoc] at pieces
      have cut' : split slash body = dropEmptyEnd front ++ (tail' ++ ([last] ++ tail)) := by
        rw [← List.append_assoc, ← pieces', pieces]
      have parent := components_of_pieces cut cut'
      have added : namedIn [last] = [c] := by
        simp [namedIn, here]
      refine ⟨⟨start.bytes ++ Text.join slash (dropEmptyEnd front)⟩, c, ?_, ?_, ?_⟩
      · have kept : (front ++ [last]).dropLast = front := List.dropLast_concat
        have filled : front ++ [last] ≠ [] := by simp
        rw [eq]
        cases pieces : front ++ [last] with
        | nil => exact absurd pieces filled
        | cons first rest =>
          rw [pieces] at kept
          rw [← kept]
      · rw [parent, whole, namedIn_append, namedIn_dropEmptyEnd, added, List.append_assoc]
      · rintro rfl
        exact componentOf_ne_root last here

/-- The parents of paths that are the same are the same. -/
theorem parent?_congr {p q : Path} (same : p.same q = true) :
    Option.Rel (fun p q => p.same q = true) p.parent? q.parent? := by
  have components := same_iff.1 same
  rcases components_parent? p with ⟨none, short⟩ | ⟨parent, c, some, eq, other⟩
  · rcases components_parent? q with ⟨none', _⟩ | ⟨parent', c', _, eq', other'⟩
    · rw [none, none']
      exact .none
    · rw [components, eq'] at short
      rcases short with short | short
      · simp at short
      · obtain ⟨_, last⟩ := List.append_eq_singleton_iff.1 short |>.resolve_right (by simp)
        exact absurd (List.cons.inj last).1 other'
  · rcases components_parent? q with ⟨_, short⟩ | ⟨parent', c', some', eq', _⟩
    · rw [← components, eq] at short
      rcases short with short | short
      · simp at short
      · obtain ⟨_, last⟩ := List.append_eq_singleton_iff.1 short |>.resolve_right (by simp)
        exact absurd (List.cons.inj last).1 other
    · rw [some, some']
      refine .some (same_iff.2 ?_)
      rw [components, eq'] at eq
      exact (List.append_inj' eq rfl).1.symm

end Path

end ModBench
