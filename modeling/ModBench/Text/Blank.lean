/-!
Blank characters and trimming.  A character is blank when it has the White_Space property;
`trim` removes blanks at both ends and `dropTrailing` removes a chosen class at the end only.
-/

set_option autoImplicit false
set_option relaxedAutoImplicit false

namespace ModBench.Text

/-- The characters with the White_Space property. -/
def isBlank (c : Char) : Bool :=
  let n := c.toNat
  (0x09 ≤ n && n ≤ 0x0d) || n == 0x20 || n == 0x85 || n == 0xa0 || n == 0x1680 ||
    (0x2000 ≤ n && n ≤ 0x200a) || n == 0x2028 || n == 0x2029 || n == 0x202f ||
    n == 0x205f || n == 0x3000

/-- The text without its longest tail of characters in the class. -/
def dropTrailing (p : Char → Bool) : List Char → List Char
  | [] => []
  | c :: rest =>
    match dropTrailing p rest with
    | [] => if p c then [] else [c]
    | kept => c :: kept

/-- The text without the blanks at its two ends. -/
def trim (text : List Char) : List Char :=
  dropTrailing isBlank (text.dropWhile isBlank)

/-- The string without the blanks at its two ends. -/
def trimString (s : String) : String :=
  String.ofList (trim s.toList)

example : isBlank ' ' = true ∧ isBlank '\n' = true ∧ isBlank '\u00a0' = true := by decide

example : trim [' ', 'a', ' ', 'b', '\n'] = ['a', ' ', 'b'] := by decide

end ModBench.Text
