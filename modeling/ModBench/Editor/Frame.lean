import ModBench.Json
import ModBench.Text.Numeral
import ModBench.Text.Split
import ModBench.Text.Utf8

/-!
Frames: a message on a stream stands behind a header that tells how many bytes it has.
-/

set_option autoImplicit false
set_option relaxedAutoImplicit false

namespace ModBench.Editor.Frame

def lengthName : List Char := "Content-Length".toList

/-- The characters without blanks around them. -/
def trimmed (cs : List Char) : List Char :=
  let isBlank (c : Char) := c == ' ' || c == '\t' || c == '\r' || c == '\n'
  ((cs.dropWhile isBlank).reverse.dropWhile isBlank).reverse

/-- The length that a header line tells; none for any other header. -/
def lengthIn? (line : List Char) : Option Nat :=
  let name := line.takeWhile fun c => c != ':'
  if (trimmed name).map Char.toLower = lengthName.map Char.toLower then
    Text.digits? (trimmed (line.drop (name.length + 1)))
  else none

def isHeaderEnd (line : List Char) : Bool :=
  (trimmed line).isEmpty

/-- A message with its header. -/
def text (body : String) : String :=
  String.ofList lengthName ++ ": " ++ toString (Text.encodeString body).length ++ "\r\n\r\n" ++ body

example : lengthIn? "Content-Length: 12\r\n".toList = some 12 := by decide +kernel

example : lengthIn? "Content-Type: x".toList = none := by decide +kernel

end ModBench.Editor.Frame
