import Mathlib.Data.List.DropRight
import ModBench.Proofs.Report.Reference
import ModBench.Proofs.Terminal

/-!
Reports as a compiler prints them.  Reading a printed report gives back what was printed: one record
for every entry whose line and column are numerals, and nothing for the others, which leave the
records of all other entries as they are.
-/

set_option autoImplicit false
set_option relaxedAutoImplicit false

namespace ModBench

namespace Report

variable {g : Grammar}

/-- No line of the text has a header in it. -/
def Headerless (g : Grammar) (text : List Char) : Prop :=
  ∀ line ∈ lines text, ∀ front suffix h, line = front ++ suffix → ¬ IsHeader g suffix h

/-- An entry as a compiler prints it: the location after a marker, and a message of lines that are
no headers. -/
structure Printed (g : Grammar) where
  marker : List Char
  header : Header
  message : List Char
  marked : (marker, header.severity) ∈ markers g
  opens : Opens header.location.file
  cut : header.location.Cut
  headerless : Headerless g (message ++ ['\n'])
  unterminated : ∀ c ∈ message.getLast?, isTerminator c = false
  plain : Terminal.Plain (header.location.text ++ message)

namespace Printed

def headline (p : Printed g) : List Char :=
  p.marker ++ p.header.location.text ++ ':' :: ['\n']

def text (p : Printed g) : List Char :=
  p.headline ++ (p.message ++ ['\n'])

/-- What a reader makes of the entry. -/
def entry (p : Printed g) : Entry :=
  ⟨p.header, p.message ++ ['\n']⟩

def record? (p : Printed g) : Option Record :=
  p.entry.record?

/-- The entry is a record: its line and column are numerals of 32 bits up to blanks around them. -/
structure Yields (p : Printed g) (r : Record) : Prop where
  severity : r.severity = p.header.severity
  file : r.file = String.ofList p.header.location.file
  line : Text.IsNumeral ((p.header.location.line.dropWhile Text.isBlank).rdropWhile Text.isBlank)
    r.line.toNat
  column : Text.IsNumeral
    ((p.header.location.column.dropWhile Text.isBlank).rdropWhile Text.isBlank) r.column.toNat
  message : r.message = String.ofList p.message

end Printed

/-- A report: text without headers, then the entries. -/
def printed (preface : List Char) (entries : List (Printed g)) : List Char :=
  preface ++ entries.flatMap Printed.text

/-- Whether lines are free of headers can be read off the suffixes of every line. -/
theorem headerless_of_tails {text : List Char}
    (none : ∀ line ∈ lines text, ∀ suffix ∈ line.tails, header? g suffix = none) :
    Headerless g text := by
  rintro line mem front suffix h rfl is
  have found := header?_append is []
  rw [List.append_nil, none _ mem suffix ((List.mem_tails _ _).2 (List.suffix_append front suffix))]
    at found
  cases found

/-! ### One entry -/

namespace Printed

private theorem isHeader (p : Printed g) : IsHeader g p.headline p.header :=
  ⟨p.marker, ['\n'], p.marked, p.opens, p.cut, ⟨[], [], by simp, Or.inl rfl, rfl⟩, rfl⟩

/-- The message is read without the line feed after it, and nothing else is lost. -/
private theorem message_entry (p : Printed g) :
    (p.message ++ ['\n']).rdropWhile isTerminator = p.message := by
  rw [List.rdropWhile_concat, if_pos (by decide), List.rdropWhile_eq_self_iff]
  intro some_text terminated
  have kept := p.unterminated _ (List.getLast?_eq_some_getLast some_text)
  rw [terminated] at kept
  cases kept

theorem record?_eq_some_iff {p : Printed g} {r : Record} : p.record? = some r ↔ p.Yields r := by
  rw [record?, Report.record?_eq_some_iff]
  constructor
  · rintro ⟨severity, file, line, column, message⟩
    exact ⟨severity, file, line, column, message.trans (congrArg String.ofList p.message_entry)⟩
  · rintro ⟨severity, file, line, column, message⟩
    refine ⟨severity, file, line, column, ?_⟩
    exact message.trans (congrArg String.ofList p.message_entry.symm)

private theorem record?_eq_none {p : Printed g} (malformed : ∀ r, ¬ p.Yields r) :
    p.record? = none := by
  cases read : p.record? with
  | none => rfl
  | some r => exact absurd (record?_eq_some_iff.1 read) (malformed r)

private theorem plain_marker (p : Printed g) : Terminal.Plain p.marker := by
  have marked := p.marked
  cases g with
  | tagged =>
    simp only [markers, List.mem_cons, List.not_mem_nil, or_false, Prod.mk.injEq] at marked
    rcases marked with ⟨eq, _⟩ | ⟨eq, _⟩ | ⟨eq, _⟩ <;> rw [eq] <;> exact ⟨by decide, by decide⟩
  | legacy =>
    simp only [markers, List.mem_singleton, Prod.mk.injEq] at marked
    rw [marked.1]
    exact ⟨by decide, by decide⟩

private theorem plain_text (p : Printed g) : Terminal.Plain p.text := by
  have colon : Terminal.Plain [':', '\n'] := ⟨by decide, by decide⟩
  have feed : Terminal.Plain ['\n'] := ⟨by decide, by decide⟩
  have location : Terminal.Plain p.header.location.text :=
    ⟨fun mem => p.plain.1 (List.mem_append_left _ mem),
      fun mem => p.plain.2 (List.mem_append_left _ mem)⟩
  have message : Terminal.Plain p.message :=
    ⟨fun mem => p.plain.1 (List.mem_append_right _ mem),
      fun mem => p.plain.2 (List.mem_append_right _ mem)⟩
  exact ((p.plain_marker.append location).append colon).append (message.append feed)

end Printed

/-! ### The scan of a printed report -/

/-- Lines without a header go to the text before the next one. -/
theorem scan_headerless {text : List Char} (headerless : Headerless g text)
    (closed : ∀ c ∈ text.getLast?, c = '\n') (rest : List Char) :
    scan g (text ++ rest) = (text ++ (scan g rest).1, (scan g rest).2) := by
  by_cases feed : '\n' ∈ text
  · obtain ⟨line, more, cut, unfed⟩ := List.eq_append_cons_of_mem feed
    have shorter : more.length < text.length := by
      rw [cut, List.length_append, List.length_cons]
      omega
    rw [Headerless, cut, lines_append unfed, List.forall_mem_cons] at headerless
    have closed' : ∀ c ∈ more.getLast?, c = '\n' := by
      intro c last
      apply closed c
      rw [cut, List.getLast?_append, List.getLast?_cons, Option.mem_def.1 last]
      rfl
    have later := scan_headerless headerless.2 closed' rest
    rw [cut, List.append_assoc, List.cons_append, scan_text_line unfed headerless.1, later,
      List.append_assoc, List.cons_append]
  · -- A text that ends in a line feed and has none is empty.
    have empty : text = [] := by
      by_contra some_text
      have last := List.getLast?_eq_some_getLast some_text
      have ends := closed _ last
      exact feed (ends ▸ List.getLast_mem some_text)
    rw [empty, List.nil_append, List.nil_append]
termination_by text.length
decreasing_by
  exact shorter

private theorem scan_entry (p : Printed g) (rest : List Char) :
    scan g (p.text ++ rest) =
      ([], ⟨p.header, p.message ++ ['\n'] ++ (scan g rest).1⟩ :: (scan g rest).2) := by
  have closed : ∀ c ∈ (p.message ++ ['\n']).getLast?, c = '\n' := by
    intro c last
    rw [List.getLast?_concat] at last
    exact (Option.some.inj last).symm
  have message := scan_headerless p.headerless closed rest
  rw [Printed.text, List.append_assoc, scan_of_header (header?_append p.isHeader _), message]

private theorem scan_entries (entries : List (Printed g)) :
    scan g (entries.flatMap Printed.text) = ([], entries.map Printed.entry) := by
  induction entries with
  | nil => rw [List.flatMap_nil, scan]; rfl
  | cons p entries ih =>
    rw [List.flatMap_cons, scan_entry, ih, List.append_nil]
    rfl

private theorem plain_printed {preface : List Char} (plain : Terminal.Plain preface)
    (entries : List (Printed g)) : Terminal.Plain (printed preface entries) := by
  refine plain.append ?_
  induction entries with
  | nil => exact ⟨List.not_mem_nil, List.not_mem_nil⟩
  | cons p entries ih => exact p.plain_text.append ih

theorem parse_printed {preface : List Char} (headerless : Headerless g preface)
    (closed : ∀ c ∈ preface.getLast?, c = '\n') (plain : Terminal.Plain preface)
    (entries : List (Printed g)) :
    parse g (String.ofList (printed preface entries)) =
      entries.filterMap Printed.record? := by
  have scanned := scan_headerless headerless closed (entries.flatMap Printed.text)
  rw [scan_entries] at scanned
  rw [parse, String.toList_ofList, Terminal.strip_of_plain (plain_printed plain entries), records,
    Report.entries, printed, scanned, List.filterMap_map]
  rfl

/-- A printed report is read back: every entry whose line and column are numerals gives its own
record, the others give none, and leaving such an entry out changes nothing. -/
theorem printed_report_parses_back (g : Grammar) (preface : List Char)
    (headerless : Headerless g preface) (closed : ∀ c ∈ preface.getLast?, c = '\n')
    (plain : Terminal.Plain preface) (entries : List (Printed g)) :
    (∃ read : Printed g → Option Record, (∀ p r, read p = some r ↔ p.Yields r) ∧
      parse g (String.ofList (printed preface entries)) = entries.filterMap read) ∧
    ∀ before malformed later, entries = before ++ malformed :: later →
      (∀ r, ¬ malformed.Yields r) →
        parse g (String.ofList (printed preface entries)) =
          parse g (String.ofList (printed preface (before ++ later))) := by
  have parsed := parse_printed headerless closed plain
  constructor
  · exact ⟨Printed.record?, fun p r => Printed.record?_eq_some_iff, parsed entries⟩
  · rintro before malformed later rfl silent
    have nothing := Printed.record?_eq_none silent
    rw [parsed, parsed, List.filterMap_append, List.filterMap_append,
      List.filterMap_cons_none nothing]

/-- A path with a drive letter; the message begins with an empty line and holds a marker. -/
def driveEntry : Printed .tagged where
  marker := "[ERROR] At ".toList
  header := ⟨.error, "C:\\m.reds".toList, "12".toList, "+5".toList⟩
  message := "\n[WARN] At m.reds".toList
  marked := by decide +kernel
  opens := ⟨'C', _, rfl, rfl⟩
  cut := ⟨by decide, by decide, by decide, by decide⟩
  headerless := headerless_of_tails (by decide +kernel)
  unterminated := by rintro _ ⟨⟩; rfl
  plain := ⟨by decide, by decide⟩

/-- A line that is no numeral, after a file that holds a marker. -/
def malformedEntry : Printed .tagged where
  marker := "[WARN] At ".toList
  header := ⟨.warning, "a[INFO] At b".toList, "x".toList, "1".toList⟩
  message := "lost".toList
  marked := by decide +kernel
  opens := ⟨'a', _, rfl, rfl⟩
  cut := ⟨by decide, by decide, by decide, by decide⟩
  headerless := headerless_of_tails (by decide +kernel)
  unterminated := by rintro _ ⟨⟩; rfl
  plain := ⟨by decide, by decide⟩

theorem malformed_entry_is_left_out :
    parse .tagged (String.ofList (printed "2 files\n".toList [driveEntry, malformedEntry])) =
      [⟨"C:\\m.reds", 12, 5, "\n[WARN] At m.reds", .error⟩] := by
  have headerless : Headerless .tagged "2 files\n".toList := headerless_of_tails (by decide +kernel)
  obtain ⟨⟨read, reads, parsed⟩, _⟩ := printed_report_parses_back .tagged "2 files\n".toList
    headerless (by rintro _ ⟨⟩; rfl) ⟨by decide, by decide⟩ [driveEntry, malformedEntry]
  have first : read driveEntry = some ⟨"C:\\m.reds", 12, 5, "\n[WARN] At m.reds", .error⟩ := by
    refine (reads _ _).2 ⟨rfl, rfl, ?_, ?_, rfl⟩
    · exact Text.numeral?_eq_some_iff.1 (by decide)
    · exact Text.numeral?_eq_some_iff.1 (by decide)
  have second : read malformedEntry = none := by
    cases found : read malformedEntry with
    | none => rfl
    | some r =>
      have line := ((reads _ _).1 found).line
      cases Text.numeral?_eq_some_iff.2 line
  rw [parsed, List.filterMap_cons_some first, List.filterMap_cons_none second, List.filterMap_nil]

/-- A blank before a numeral. -/
def blankEntry : Printed .tagged where
  marker := "[ERROR] At ".toList
  header := ⟨.error, "a".toList, " 5".toList, "2".toList⟩
  message := "x".toList
  marked := by decide +kernel
  opens := ⟨'a', _, rfl, rfl⟩
  cut := ⟨by decide, by decide, by decide, by decide⟩
  headerless := headerless_of_tails (by decide +kernel)
  unterminated := by rintro _ ⟨⟩; rfl
  plain := ⟨by decide, by decide⟩

/-- An entry can be a record though its line is no numeral as it stands. -/
theorem blank_before_numeral_is_read :
    (∀ n, ¬ Text.IsNumeral blankEntry.header.location.line n) ∧
      printed [] [blankEntry] = "[ERROR] At a: 5:2:\nx\n".toList ∧
      parse .tagged "[ERROR] At a: 5:2:\nx\n" = [⟨"a", 5, 2, "x", .error⟩] := by
  refine ⟨?_, by decide, ?_⟩
  · intro n numeral
    have read : Text.numeral? blankEntry.header.location.line = some n :=
      Text.numeral?_eq_some_iff.2 numeral
    cases read
  · have headerless : Headerless .tagged [] := headerless_of_tails (by decide +kernel)
    have parsed := parse_printed headerless (by rintro _ ⟨⟩) ⟨by decide, by decide⟩ [blankEntry]
    have yields : blankEntry.record? = some ⟨"a", 5, 2, "x", .error⟩ := by decide
    rw [List.filterMap_cons_some yields] at parsed
    exact parsed

end Report

end ModBench
