/-!
Patterns for texts.  A star stands for any text, a question mark for any character and a bracketed
set for one of its characters; quoted characters stand for themselves.
-/

set_option autoImplicit false
set_option relaxedAutoImplicit false

namespace ModBench.Shell

/-- One element of a pattern. -/
inductive Atom where
  | one (c : Char)
  | any
  | many
  | within (inverted : Bool) (ranges : List (Char × Char))
  deriving DecidableEq, Repr, Inhabited

abbrev Pattern := List Atom

namespace Atom

/-- Whether a character alone matches an element. -/
def accepts : Atom → Char → Bool
  | one c, d => c == d
  | any, _ => true
  | many, _ => true
  | within inverted ranges, d =>
    (ranges.any fun (low, high) => low.toNat ≤ d.toNat && d.toNat ≤ high.toNat) != inverted

end Atom

namespace Pattern

/-- The ranges in a bracketed set.  The first character belongs to it even if it is a bracket. -/
def rangesOf : List Char → List (Char × Char)
  | a :: '-' :: b :: rest => (a, b) :: rangesOf rest
  | a :: rest => (a, a) :: rangesOf rest
  | [] => []

/-- The text of a set up to its closing bracket, and what stands behind it. -/
def spanSet (isFirst : Bool) : List (Char × Bool) → Option (List Char × List (Char × Bool))
  | [] => none
  | (c, isQuoted) :: rest =>
    if c = ']' ∧ isQuoted = false ∧ isFirst = false then some ([], rest)
    else (spanSet false rest).map fun (text, rest) => (c :: text, rest)

theorem spanSet_length_lt {isFirst : Bool} {cs rest : List (Char × Bool)} {text : List Char}
    (h : spanSet isFirst cs = some (text, rest)) : rest.length < cs.length := by
  induction cs generalizing isFirst text with
  | nil => cases h
  | cons c cs ih =>
    unfold spanSet at h
    split at h
    · simp only [Option.some.injEq, Prod.mk.injEq] at h
      simp [← h.2]
    · obtain ⟨⟨inner, tail⟩, found, eq⟩ := Option.map_eq_some_iff.1 h
      simp only [Prod.mk.injEq] at eq
      have := ih (eq.2 ▸ found)
      simp only [List.length_cons]
      omega

/-- The set that a text between brackets describes. -/
def setOf : List Char → Atom
  | '!' :: rest => .within true (rangesOf rest)
  | '^' :: rest => .within true (rangesOf rest)
  | text => .within false (rangesOf text)

def ofMarked : List (Char × Bool) → Pattern
  | [] => []
  | (c, isQuoted) :: rest =>
    if isQuoted then .one c :: ofMarked rest
    else if c = '*' then .many :: ofMarked rest
    else if c = '?' then .any :: ofMarked rest
    else if c = '[' then
      match _set : spanSet true rest with
      | some (text, more) => setOf text :: ofMarked more
      | none => .one c :: ofMarked rest
    else .one c :: ofMarked rest
termination_by cs => cs.length
decreasing_by
  all_goals simp only [List.length_cons]
  all_goals try have shorter := spanSet_length_lt _set
  all_goals omega

def fits : Pattern → List Char → Bool
  | [], text => text.isEmpty
  | .many :: rest, [] => fits rest []
  | .many :: rest, c :: text => fits rest (c :: text) || fits (.many :: rest) text
  | _ :: _, [] => false
  | a :: rest, c :: text => a.accepts c && fits rest text
termination_by p text => (text.length, p.length)

/-- Whether something in a pattern stands for more than itself. -/
def isActive (p : Pattern) : Bool :=
  p.any fun
    | .one _ => false
    | _ => true

end Pattern

def dropMatchAtStart (longest : Bool) (p : Pattern) (text : List Char) : List Char :=
  let counts := List.range (text.length + 1)
  match (if longest then counts.reverse else counts).find? fun n => p.fits (text.take n) with
  | some n => text.drop n
  | none => text

def dropMatchAtEnd (longest : Bool) (p : Pattern) (text : List Char) : List Char :=
  let counts := List.range (text.length + 1)
  match (if longest then counts else counts.reverse).find? fun n => p.fits (text.drop n) with
  | some n => text.take n
  | none => text

end ModBench.Shell
