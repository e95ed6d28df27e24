import ModBench.Text.Split

/-!
Lines of a text.  A line ends at a line feed; one carriage return directly before that line feed
belongs to the line end, and a text that ends in a line feed has no empty last line.
-/

set_option autoImplicit false
set_option relaxedAutoImplicit false

namespace ModBench.Text

/-- A line without the one carriage return that ends it. -/
def dropReturn : List Char → List Char
  | [] => []
  | ['\r'] => []
  | c :: rest => c :: dropReturn rest

/-- The terminated pieces lose their carriage return; an empty piece after the last line feed is
no line. -/
def terminate : List (List Char) → List (List Char)
  | [] => []
  | [last] => if last.isEmpty then [] else [last]
  | piece :: rest => dropReturn piece :: terminate rest

def lines (text : List Char) : List (List Char) :=
  terminate (split '\n' text)

def linesOf (s : String) : List String :=
  (lines s.toList).map String.ofList

example : lines ['a', '\r', '\n', '\n', 'b', '\r'] = [['a'], [], ['b', '\r']] := by decide

example : lines ['a', '\n'] = [['a']] ∧ lines [] = [] := by decide

end ModBench.Text
