import ModBench.Diagnostic.Record
import ModBench.Text.Blank

/-!
Headers of report entries.  A header is a marker, a location `file:line:column:`, blanks, and the
end of its line.  The file begins with a character that is not blank; it holds no colon except
possibly as its first character or, as in a drive letter, its second.
-/

set_option autoImplicit false
set_option relaxedAutoImplicit false

namespace ModBench

/-- The two forms of report that compiler versions print. -/
inductive Grammar where
  /-- Headers open with a severity tag. -/
  | tagged
  /-- Headers open with a fixed phrase; every entry is an error. -/
  | legacy
  deriving DecidableEq, Repr, Inhabited

namespace Report

/-- The three texts of a location. -/
structure Location where
  file : List Char
  line : List Char
  column : List Char
  deriving DecidableEq, Repr, Inhabited

/-- A header: the severity of its marker and its location. -/
structure Header where
  severity : Severity
  location : Location
  deriving DecidableEq, Repr, Inhabited

def markers : Grammar → List (List Char × Severity)
  | .tagged =>
    [("[ERROR] At ".toList, .error), ("[WARN] At ".toList, .warning), ("[INFO] At ".toList, .info)]
  | .legacy => [("Compilation error at ".toList, .error)]

/-- What follows a beginning in a text. -/
def after? : List Char → List Char → Option (List Char)
  | [], text => some text
  | _ :: _, [] => none
  | c :: beginning, d :: text => if c = d then after? beginning text else none

/-- The first marker of the list that begins a text, and what follows it. -/
def marker? : List (List Char × Severity) → List Char → Option (Severity × List Char)
  | [], _ => none
  | (marker, severity) :: rest, text =>
    match after? marker text with
    | some more => some (severity, more)
    | none => marker? rest text

/-- A stretch without colon or line feed up to its colon, and what follows that colon. -/
def field? : List Char → Option (List Char × List Char)
  | [] => none
  | c :: rest =>
    if c = ':' then some ([], rest)
    else if c = '\n' then none
    else
      match field? rest with
      | some (value, more) => some (c :: value, more)
      | none => none

/-- What follows a line end: spaces and tabs, at most one carriage return, and a line feed. -/
def lineEnd? : List Char → Option (List Char)
  | '\n' :: rest => some rest
  | '\r' :: '\n' :: rest => some rest
  | ' ' :: rest => lineEnd? rest
  | '\t' :: rest => lineEnd? rest
  | _ => none

/-- Three fields and a line end. -/
def fields? (text : List Char) : Option (Location × List Char) :=
  match field? text with
  | none => none
  | some (file, afterFile) =>
    match field? afterFile with
    | none => none
    | some (line, afterLine) =>
      match field? afterLine with
      | none => none
      | some (column, afterColumn) =>
        match lineEnd? afterColumn with
        | none => none
        | some rest => some (⟨file, line, column⟩, rest)

def Location.lead (front : List Char) (found : Location × List Char) : Location × List Char :=
  ({ found.1 with file := front ++ found.1.file }, found.2)

def drive? (letter : Char) : List Char → Option (Location × List Char)
  | ':' :: rest => (fields? rest).map (Location.lead [letter, ':'])
  | _ => none

/-- A location and its line end; the reading with a drive letter comes first. -/
def location? : List Char → Option (Location × List Char)
  | [] => none
  | c :: rest =>
    if Text.isBlank c then none
    else
      match drive? c rest with
      | some found => some found
      | none => (fields? rest).map (Location.lead [c])

/-- A header at the very beginning of a text, and what follows it. -/
def header? (g : Grammar) (text : List Char) : Option (Header × List Char) :=
  match marker? (markers g) text with
  | none => none
  | some (severity, rest) =>
    (location? rest).map fun (location, more) => (⟨severity, location⟩, more)

theorem after?_length_le {beginning text rest : List Char} (h : after? beginning text = some rest) :
    rest.length ≤ text.length := by
  induction beginning generalizing text with
  | nil => simp only [after?, Option.some.injEq] at h; simp [h]
  | cons c beginning ih =>
    cases text with
    | nil => simp [after?] at h
    | cons d text =>
      unfold after? at h
      split at h
      · exact Nat.le_succ_of_le (ih h)
      · cases h

theorem marker?_length_le {ms : List (List Char × Severity)} {text rest : List Char}
    {severity : Severity} (h : marker? ms text = some (severity, rest)) :
    rest.length ≤ text.length := by
  induction ms with
  | nil => simp [marker?] at h
  | cons m ms ih =>
    unfold marker? at h
    split at h
    · rename_i more found
      simp only [Option.some.injEq, Prod.mk.injEq] at h
      exact h.2 ▸ after?_length_le found
    · exact ih h

theorem field?_length_lt {text value rest : List Char} (h : field? text = some (value, rest)) :
    rest.length < text.length := by
  induction text generalizing value with
  | nil => simp [field?] at h
  | cons c text ih =>
    unfold field? at h
    split at h
    · simp only [Option.some.injEq, Prod.mk.injEq] at h
      simp [h.2]
    · split at h
      · cases h
      · split at h
        · rename_i inner
          simp only [Option.some.injEq, Prod.mk.injEq] at h
          have := ih (h.2 ▸ inner)
          simp only [List.length_cons]
          omega
        · cases h

theorem lineEnd?_length_lt {text rest : List Char} (h : lineEnd? text = some rest) :
    rest.length < text.length := by
  fun_induction lineEnd? text with
  | case1 => simp_all
  | case2 => simp_all only [List.length_cons, Option.some.injEq]; omega
  | case3 _ ih => have := ih h; simp only [List.length_cons]; omega
  | case4 _ ih => have := ih h; simp only [List.length_cons]; omega
  | case5 => cases h

theorem fields?_length_lt {text : List Char} {found : Location × List Char}
    (h : fields? text = some found) : found.2.length < text.length := by
  unfold fields? at h
  split at h
  · cases h
  · rename_i h1
    split at h
    · cases h
    · rename_i h2
      split at h
      · cases h
      · rename_i h3
        split at h
        · cases h
        · rename_i h4
          have := field?_length_lt h1
          have := field?_length_lt h2
          have := field?_length_lt h3
          have := lineEnd?_length_lt h4
          simp only [Option.some.injEq] at h
          rw [← h]
          dsimp only
          omega

theorem drive?_length_lt {letter : Char} {text : List Char} {found : Location × List Char}
    (h : drive? letter text = some found) : found.2.length < text.length := by
  unfold drive? at h
  split at h
  · obtain ⟨inner, here, rfl⟩ := Option.map_eq_some_iff.1 h
    have := fields?_length_lt here
    simp only [Location.lead, List.length_cons]
    omega
  · cases h

theorem location?_length_lt {text : List Char} {found : Location × List Char}
    (h : location? text = some found) : found.2.length < text.length := by
  cases text with
  | nil => simp [location?] at h
  | cons c text =>
    rw [location?] at h
    split at h
    · cases h
    · split at h
      · rename_i driven
        simp only [Option.some.injEq] at h
        have := drive?_length_lt driven
        rw [← h, List.length_cons]
        omega
      · obtain ⟨inner, here, rfl⟩ := Option.map_eq_some_iff.1 h
        have := fields?_length_lt here
        simp only [Location.lead, List.length_cons]
        omega

/-- Reading a header uses up text. -/
theorem header?_length_lt {g : Grammar} {text rest : List Char} {header : Header}
    (h : header? g text = some (header, rest)) : rest.length < text.length := by
  unfold header? at h
  split at h
  · cases h
  · rename_i marked
    obtain ⟨found, located, eq⟩ := Option.map_eq_some_iff.1 h
    simp only [Prod.mk.injEq] at eq
    have := marker?_length_le marked
    have := location?_length_lt located
    rw [← eq.2]
    omega

end Report

end ModBench
