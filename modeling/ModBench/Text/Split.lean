/-!
Cutting a list at a separator and joining it again: a text at a character, a path at a byte.  Main
statements: there is always at least one piece, no piece holds the separator, and joining the pieces
gives the list back.
-/

set_option autoImplicit false
set_option relaxedAutoImplicit false

namespace ModBench.Text

variable {α : Type}

/-- The pieces of a list between separators; always at least one. -/
def split [DecidableEq α] (sep : α) : List α → List (List α)
  | [] => [[]]
  | c :: rest =>
    if c = sep then [] :: split sep rest
    else
      match split sep rest with
      | [] => [[c]]
      | piece :: pieces => (c :: piece) :: pieces

/-- Pieces with a separator between each two. -/
def join (sep : α) : List (List α) → List α
  | [] => []
  | [piece] => piece
  | piece :: pieces => piece ++ sep :: join sep pieces

theorem split_ne_nil [DecidableEq α] (sep : α) (text : List α) : split sep text ≠ [] := by
  cases text with
  | nil => simp [split]
  | cons c rest =>
    unfold split
    split
    · simp
    · split <;> simp

theorem join_cons (sep : α) (piece : List α) {pieces : List (List α)}
    (h : pieces ≠ []) : join sep (piece :: pieces) = piece ++ sep :: join sep pieces := by
  cases pieces with
  | nil => exact absurd rfl h
  | cons => rfl

/-- Cutting loses nothing. -/
theorem join_split [DecidableEq α] (sep : α) (text : List α) :
    join sep (split sep text) = text := by
  induction text with
  | nil => rfl
  | cons c rest ih =>
    unfold split
    split
    · rename_i eq
      rw [join_cons sep [] (split_ne_nil sep rest), ih, eq]
      rfl
    · split
      · rename_i none
        exact absurd none (split_ne_nil sep rest)
      · rename_i piece pieces eq
        rw [eq] at ih
        cases pieces with
        | nil => simpa [join] using ih
        | cons => simpa [join] using ih

/-- No piece holds the separator. -/
theorem not_mem_of_mem_split [DecidableEq α] (sep : α) (text : List α) :
    ∀ piece ∈ split sep text, sep ∉ piece := by
  induction text with
  | nil => simp [split]
  | cons c rest ih =>
    unfold split
    split
    · simpa using ih
    · rename_i other
      split
      · rename_i none
        exact absurd none (split_ne_nil sep rest)
      · rename_i piece pieces eq
        rw [eq] at ih
        intro q hq
        rcases List.mem_cons.1 hq with rfl | hq
        · intro mem
          rcases List.mem_cons.1 mem with eq' | mem
          · exact other eq'.symm
          · exact ih piece (by simp) mem
        · exact ih q (by simp [hq])

end ModBench.Text
