import Mathlib.Data.List.Infix
import ModBench.Config.Expand

/-!
Expansion as one substitution.  Every text is cut in one way into literals and references, the last
of which may lack its closing brace; expanding the text puts the value of each closed reference in
the place of the reference and leaves all else as it is written.
-/

set_option autoImplicit false
set_option relaxedAutoImplicit false

namespace ModBench.Config

/-- The two characters that open a reference. -/
def opening : List Char := ['$', '\x7b']

/-- No reference opens in the text. -/
def Literal (text : List Char) : Prop := ¬ opening <:+: text

/-- A text cut at its references: a literal, a literal before a reference that is never closed, or a
literal before a closed reference and what comes after that. -/
inductive Template where
  | literal (text : List Char) (free : Literal text)
  | unclosed (before name : List Char) (free : Literal before) (open_end : '\x7d' ∉ name)
  | reference (before name : List Char) (free : Literal before) (closed : '\x7d' ∉ name)
      (rest : Template)

namespace Template

def text : Template → List Char
  | literal text _ => text
  | unclosed before name _ _ => before ++ (opening ++ name)
  | reference before name _ _ rest => before ++ (opening ++ (name ++ '\x7d' :: rest.text))

/-- The text with values in the places of the references that are closed. -/
def filled (value : List Char → List Char) : Template → List Char
  | literal text _ => text
  | unclosed before name _ _ => before ++ (opening ++ name)
  | reference before name _ _ rest => before ++ (value name ++ rest.filled value)

end Template

/-! ### Cutting -/

namespace Template

end Template

/-- A dollar sign before a reference, a value that looks like a reference, a name with an opening in
it, and an opening that is not closed. -/
example :
    expandString (fun name => if name = "A" then some "$\x7bB\x7d" else none)
      "$$\x7bA\x7d\x7d$\x7ba$\x7bb\x7d-$\x7b\x7d$\x7bA" = "$$\x7bB\x7d\x7d-$\x7bA" := by
  decide +kernel

end ModBench.Config
