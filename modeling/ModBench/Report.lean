import ModBench.Report.Header
import ModBench.Terminal
import ModBench.Text.Numeral

/-!
Reports of the compiler.  A report is text with headers in it; the text from one header to the next
is the message of an entry.  `parse` gives a record for every entry whose line and column are
numerals; an entry with other texts there is dropped, and still ends the message before it.
-/

set_option autoImplicit false
set_option relaxedAutoImplicit false

namespace ModBench

namespace Report

/-- A header with the text that follows it. -/
structure Entry where
  header : Header
  body : List Char
  deriving DecidableEq, Repr, Inhabited

/-- The text before the first header and the entries, reading headers from left to right. -/
def scan (g : Grammar) (text : List Char) : List Char × List Entry :=
  match text with
  | [] => ([], [])
  | c :: rest =>
    match _found : header? g (c :: rest) with
    | some (header, more) =>
      let (body, entries) := scan g more
      ([], ⟨header, body⟩ :: entries)
    | none =>
      let (before, entries) := scan g rest
      (c :: before, entries)
termination_by text.length
decreasing_by
  · have := header?_length_lt _found
    omega
  · simp

def entries (g : Grammar) (text : List Char) : List Entry :=
  (scan g text).2

/-- Line terminators, which do not count at the end of a message. -/
def isTerminator (c : Char) : Bool :=
  c = '\r' || c = '\n'

def Entry.message (e : Entry) : List Char :=
  Text.dropTrailing isTerminator e.body

/-- The record of an entry, if its line and column are numerals. -/
def Entry.record? (e : Entry) : Option Record :=
  let location := e.header.location
  match Text.numeral32? (Text.trim location.line), Text.numeral32? (Text.trim location.column) with
  | some line, some column =>
    some ⟨String.ofList location.file, line, column, String.ofList e.message, e.header.severity⟩
  | _, _ => none

/-- The records of a text without escape sequences. -/
def records (g : Grammar) (text : List Char) : List Record :=
  (entries g text).filterMap Entry.record?

def parse (g : Grammar) (raw : String) : List Record :=
  records g (Terminal.strip raw.toList)

end Report

end ModBench
