/-!
References to environment variables.  A reference is a dollar sign and a name between braces; it
stands for the variable's value, and for nothing when the variable is not set.  Values are put in
as they are, and a reference that is not closed stays as it is written.
-/

set_option autoImplicit false
set_option relaxedAutoImplicit false

namespace ModBench

/-- The values of environment variables. -/
abbrev Environment := String → Option String

namespace Config

/-- The text before the first opening of a reference, and what follows that opening. -/
def cutOpening : List Char → Option (List Char × List Char)
  | '$' :: '\x7b' :: rest => some ([], rest)
  | c :: rest => (cutOpening rest).map fun (before, after) => (c :: before, after)
  | [] => none

/-- The text before the first closing brace, and what follows it. -/
def cutClosing : List Char → Option (List Char × List Char)
  | [] => none
  | c :: rest =>
    if c = '\x7d' then some ([], rest)
    else (cutClosing rest).map fun (before, after) => (c :: before, after)

theorem cutOpening_length_lt {text before after : List Char}
    (h : cutOpening text = some (before, after)) : after.length < text.length := by
  fun_induction cutOpening text generalizing before with
  | case1 rest =>
    simp only [Option.some.injEq, Prod.mk.injEq] at h
    rw [← h.2]
    simp only [List.length_cons]
    omega
  | case2 c rest _ ih =>
    obtain ⟨⟨inner, tail⟩, found, eq⟩ := Option.map_eq_some_iff.1 h
    simp only [Prod.mk.injEq] at eq
    have := ih (eq.2 ▸ found)
    simp only [List.length_cons]
    omega
  | case3 => cases h

theorem cutClosing_length_lt {text before after : List Char}
    (h : cutClosing text = some (before, after)) : after.length < text.length := by
  induction text generalizing before with
  | nil => cases h
  | cons c rest ih =>
    unfold cutClosing at h
    split at h
    · simp only [Option.some.injEq, Prod.mk.injEq] at h
      simp [← h.2]
    · obtain ⟨⟨inner, tail⟩, found, eq⟩ := Option.map_eq_some_iff.1 h
      simp only [Prod.mk.injEq] at eq
      have := ih (eq.2 ▸ found)
      simp only [List.length_cons]
      omega

/-- What a reference stands for. -/
def valueOf (env : Environment) (name : List Char) : List Char :=
  if name.isEmpty then [] else ((env (String.ofList name)).getD "").toList

/-- The text with its references replaced, from left to right. -/
def expand (env : Environment) (text : List Char) : List Char :=
  match _opened : cutOpening text with
  | none => text
  | some (before, after) =>
    match _closed : cutClosing after with
    | none => text
    | some (name, rest) => before ++ valueOf env name ++ expand env rest
termination_by text.length
decreasing_by
  have := cutOpening_length_lt _opened
  have := cutClosing_length_lt _closed
  omega

/-- The string with its references replaced. -/
def expandString (env : Environment) (s : String) : String :=
  String.ofList (expand env s.toList)

end Config

end ModBench
