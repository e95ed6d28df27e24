import Mathlib.Data.List.Basic
import Mathlib.Data.List.Infix
import ModBench.Proofs.Report.Grammar
import ModBench.Proofs.Text.Tokens
import ModBench.Report

/-!
Reports line by line.  The scan looks for headers at every character; it finds the same entries as a
reading that takes one line after the other and asks of each line for its longest header.
-/

set_option autoImplicit false
set_option relaxedAutoImplicit false

namespace ModBench.Report

/-- The lines of a text, each with its line feed; a last line without one stands as it is. -/
def lines : List Char → List (List Char)
  | [] => []
  | c :: rest =>
    if c = '\n' then [c] :: lines rest
    else
      match lines rest with
      | [] => [[c]]
      | line :: more => (c :: line) :: more

def IsLongest (g : Grammar) (line suffix : List Char) : Prop :=
  ∀ front other h, line = front ++ other → IsHeader g other h → other.length ≤ suffix.length

/-- How lines are read: to the text before the first header and the entries.  A line contributes at
most one header, the longest of its suffixes that are headers; all other text goes to the entry
before it. -/
inductive Reads (g : Grammar) : List (List Char) → List Char → List Entry → Prop
  | none : Reads g [] [] []
  | header {front suffix : List Char} {h : Header} {rest : List (List Char)} {body : List Char}
      {entries : List Entry} : IsHeader g suffix h → IsLongest g (front ++ suffix) suffix →
      Reads g rest body entries →
      Reads g ((front ++ suffix) :: rest) front (⟨h, body⟩ :: entries)
  | text {line : List Char} {rest : List (List Char)} {body : List Char} {entries : List Entry} :
      (∀ front suffix h, line = front ++ suffix → ¬ IsHeader g suffix h) →
      Reads g rest body entries → Reads g (line :: rest) (line ++ body) entries

/-- An entry gives a record: its line and column are numerals of 32 bits up to blanks around them,
and its message is the text after the header without line terminators at its end. -/
structure Entry.Yields (e : Entry) (r : Record) : Prop where
  severity : r.severity = e.header.severity
  file : r.file = String.ofList e.header.location.file
  line : Text.IsNumeral ((e.header.location.line.dropWhile Text.isBlank).rdropWhile Text.isBlank)
    r.line.toNat
  column : Text.IsNumeral
    ((e.header.location.column.dropWhile Text.isBlank).rdropWhile Text.isBlank) r.column.toNat
  message : r.message = String.ofList (e.body.rdropWhile isTerminator)

inductive Collects : List Entry → List Record → Prop
  | none : Collects [] []
  | record {e : Entry} {r : Record} {entries : List Entry} {records : List Record} :
      e.Yields r → Collects entries records → Collects (e :: entries) (r :: records)
  | dropped {e : Entry} {entries : List Entry} {records : List Record} :
      (∀ r, ¬ e.Yields r) → Collects entries records → Collects (e :: entries) records

/-! ### Records -/

theorem record?_eq_some_iff {e : Entry} {r : Record} : e.record? = some r ↔ e.Yields r := by
  unfold Entry.record?
  dsimp only
  constructor
  · intro read
    split at read
    · rename_i line column found_line found_column
      cases read
      rw [Text.numeral32?_eq_some_iff, Text.trim_eq_rdropWhile] at found_line found_column
      refine ⟨rfl, rfl, found_line, found_column, ?_⟩
      rw [Entry.message, Text.dropTrailing_eq_rdropWhile]
    · cases read
  · rintro ⟨severity, file, line, column, message⟩
    rw [← Text.trim_eq_rdropWhile, ← Text.numeral32?_eq_some_iff] at line column
    rw [line, column, Entry.message, Text.dropTrailing_eq_rdropWhile, ← severity, ← file, ← message]

private theorem collects_iff {entries : List Entry} {records : List Record} :
    Collects entries records ↔ entries.filterMap Entry.record? = records := by
  constructor
  · intro collects
    induction collects with
    | none => rfl
    | record yields _ ih => rw [List.filterMap_cons_some (record?_eq_some_iff.2 yields), ih]
    | @dropped e _ _ silent _ ih =>
      have nothing : e.record? = none := by
        cases read : e.record? with
        | none => rfl
        | some r => exact absurd (record?_eq_some_iff.1 read) (silent r)
      rw [List.filterMap_cons_none nothing, ih]
  · rintro rfl
    induction entries with
    | nil => exact .none
    | cons e entries ih =>
      cases read : e.record? with
      | none =>
        rw [List.filterMap_cons_none read]
        refine .dropped ?_ ih
        intro r yields
        rw [record?_eq_some_iff.2 yields] at read
        cases read
      | some r =>
        rw [List.filterMap_cons_some read]
        exact .record (record?_eq_some_iff.1 read) ih

/-! ### Lines -/

theorem lines_append {line : List Char} (feed : '\n' ∉ line) (rest : List Char) :
    lines (line ++ '\n' :: rest) = (line ++ ['\n']) :: lines rest := by
  induction line with
  | nil => rw [List.nil_append, lines, if_pos rfl]; rfl
  | cons c line ih =>
    rw [List.mem_cons, not_or] at feed
    rw [List.cons_append, lines, if_neg (Ne.symm feed.1), ih feed.2]
    rfl

private theorem lines_of_no_feed {line : List Char} (feed : '\n' ∉ line) (some_text : line ≠ []) :
    lines line = [line] := by
  induction line with
  | nil => exact absurd rfl some_text
  | cons c line ih =>
    rw [List.mem_cons, not_or] at feed
    rw [lines, if_neg (Ne.symm feed.1)]
    cases line with
    | nil => rfl
    | cons d line => rw [ih feed.2 (List.cons_ne_nil d line)]

/-- A header ends at its only line feed. -/
theorem IsHeader.feed {g : Grammar} {text : List Char} {h : Header} (is : IsHeader g text h) :
    ∃ line, text = line ++ ['\n'] ∧ '\n' ∉ line := by
  obtain ⟨marker, ending, mem, _, cut, ⟨spaces, ret, blank, returns, rfl⟩, rfl⟩ := is
  refine ⟨marker ++ h.location.text ++ ':' :: (spaces ++ ret), by simp, ?_⟩
  have in_marker : '\n' ∉ marker := by
    cases g with
    | tagged =>
      simp only [markers, List.mem_cons, List.not_mem_nil, or_false, Prod.mk.injEq] at mem
      rcases mem with ⟨rfl, _⟩ | ⟨rfl, _⟩ | ⟨rfl, _⟩ <;> decide
    | legacy =>
      simp only [markers, List.mem_singleton, Prod.mk.injEq] at mem
      rw [mem.1]
      decide
  have in_spaces : '\n' ∉ spaces := fun inside => by
    rcases blank _ inside with h | h <;> cases h
  have in_ret : '\n' ∉ ret := by
    rcases returns with rfl | rfl <;> decide
  simp [in_marker, cut.one_line, in_spaces, in_ret]

/-- Two lines that begin the same text are equal. -/
private theorem line_unique {line line' rest rest' : List Char} (feed : '\n' ∉ line)
    (feed' : '\n' ∉ line') (eq : line ++ '\n' :: rest = line' ++ '\n' :: rest') :
    line = line' ∧ rest = rest' := by
  induction line generalizing line' with
  | nil =>
    cases line' with
    | nil => exact ⟨rfl, (List.cons.inj eq).2⟩
    | cons d line' =>
      rw [(List.cons.inj eq).1] at feed'
      exact absurd List.mem_cons_self feed'
  | cons c line ih =>
    cases line' with
    | nil =>
      rw [(List.cons.inj eq).1] at feed
      exact absurd List.mem_cons_self feed
    | cons d line' =>
      obtain ⟨rfl, tails⟩ := List.cons.inj eq
      rw [List.mem_cons, not_or] at feed feed'
      obtain ⟨rfl, rests⟩ := ih feed.2 feed'.2 tails
      exact ⟨rfl, rests⟩

/-! ### The scan of a line -/

variable {g : Grammar}

theorem scan_of_header {text more : List Char} {h : Header}
    (found : header? g text = some (h, more)) :
    scan g text = ([], ⟨h, (scan g more).1⟩ :: (scan g more).2) := by
  cases text with
  | nil => exact absurd (header?_length_lt found) (Nat.not_lt_zero _)
  | cons c text =>
    rw [scan]
    split
    · rename_i h' more' found'
      rw [found] at found'
      cases found'
      rfl
    · rename_i missing
      rw [found] at missing
      cases missing

theorem scan_of_none {c : Char} {text : List Char} (missing : header? g (c :: text) = none) :
    scan g (c :: text) = (c :: (scan g text).1, (scan g text).2) := by
  rw [scan]
  split
  · rename_i found
    rw [missing] at found
    cases found
  · rfl

/-- A header at the beginning of a line is that line. -/
theorem header?_line_eq_none {line : List Char} (feed : '\n' ∉ line)
    (none : ∀ h, ¬ IsHeader g (line ++ ['\n']) h) (rest : List Char) :
    header? g (line ++ '\n' :: rest) = Option.none := by
  cases found : header? g (line ++ '\n' :: rest) with
  | none => rfl
  | some result =>
    obtain ⟨here, is, eq⟩ := of_header? found
    obtain ⟨line', rfl, feed'⟩ := is.feed
    rw [List.append_assoc, List.singleton_append] at eq
    obtain ⟨rfl, _⟩ := line_unique feed feed' eq
    exact absurd is (none _)

private theorem scan_header_line {front suffix : List Char} {h : Header} (is : IsHeader g suffix h)
    (longest : IsLongest g (front ++ suffix) suffix) (feed : '\n' ∉ front) (rest : List Char) :
    scan g (front ++ suffix ++ rest) = (front, ⟨h, (scan g rest).1⟩ :: (scan g rest).2) := by
  induction front with
  | nil => exact scan_of_header (header?_append is rest)
  | cons c front ih =>
    have fed : '\n' ∉ front := fun mem => feed (List.mem_cons_of_mem c mem)
    have longest' : IsLongest g (front ++ suffix) suffix := by
      intro front' other h' eq
      exact longest (c :: front') other h' (by rw [List.cons_append, List.cons_append, eq])
    have missing : header? g (c :: (front ++ suffix ++ rest)) = none := by
      obtain ⟨tail, rfl, fed'⟩ := is.feed
      have spelled : c :: (front ++ (tail ++ ['\n']) ++ rest) =
          (c :: (front ++ tail)) ++ '\n' :: rest := by simp
      rw [spelled]
      apply header?_line_eq_none
      · rw [← List.cons_append, List.mem_append, not_or]
        exact ⟨feed, fed'⟩
      · -- The whole line would be longer than its longest header.
        intro h' whole
        have shorter := longest [] _ _ (by simp) whole
        simp only [List.length_cons, List.length_append] at shorter
        omega
    rw [List.cons_append, List.cons_append, scan_of_none missing, ih longest' fed]

theorem scan_text_line {line : List Char} (feed : '\n' ∉ line)
    (none : ∀ front suffix h, line ++ ['\n'] = front ++ suffix → ¬ IsHeader g suffix h)
    (rest : List Char) :
    scan g (line ++ '\n' :: rest) = (line ++ '\n' :: (scan g rest).1, (scan g rest).2) := by
  induction line with
  | nil => exact scan_of_none (header?_line_eq_none feed (fun h => none [] _ h rfl) rest)
  | cons c line ih =>
    have fed : '\n' ∉ line := fun mem => feed (List.mem_cons_of_mem c mem)
    have none' : ∀ front suffix h, line ++ ['\n'] = front ++ suffix → ¬ IsHeader g suffix h := by
      intro front suffix h eq
      exact none (c :: front) suffix h (by rw [List.cons_append, List.cons_append, eq])
    have missing := header?_line_eq_none feed (fun h => none [] _ h rfl) rest
    rw [List.cons_append] at missing ⊢
    rw [scan_of_none missing, ih fed none']
    rfl

theorem scan_of_no_header {text : List Char}
    (none : ∀ suffix ∈ text.tails, header? g suffix = none) :
    scan g text = (text, []) := by
  induction text with
  | nil => rw [scan]
  | cons c text ih =>
    rw [List.tails, List.forall_mem_cons] at none
    rw [scan_of_none none.1, ih none.2]

private theorem scan_of_no_feed {text : List Char} (feed : '\n' ∉ text) :
    scan g text = (text, []) := by
  apply scan_of_no_header
  intro suffix mem
  cases found : header? g suffix with
  | none => rfl
  | some result =>
    obtain ⟨here, is, rfl⟩ := of_header? found
    obtain ⟨line, rfl, _⟩ := is.feed
    have inside : '\n' ∈ line ++ ['\n'] ++ result.2 := by simp
    exact absurd (((List.mem_tails _ _).1 mem).subset inside) feed

/-! ### The scan of a text -/

/-- A text holds no header, or it has a longest suffix that is one. -/
private theorem longest_or_none (g : Grammar) (text : List Char) :
    (∃ front suffix h, text = front ++ suffix ∧ IsHeader g suffix h ∧ IsLongest g text suffix) ∨
      ∀ front suffix h, text = front ++ suffix → ¬ IsHeader g suffix h := by
  induction text with
  | nil =>
    right
    intro front suffix h eq is
    obtain ⟨line, rfl, _⟩ := is.feed
    simp at eq
  | cons c text ih =>
    by_cases whole : ∃ h, IsHeader g (c :: text) h
    · obtain ⟨h, is⟩ := whole
      refine Or.inl ⟨[], c :: text, h, rfl, is, ?_⟩
      intro front other _ eq _
      rw [eq, List.length_append]
      omega
    · rcases ih with ⟨front, suffix, h, rfl, is, longest⟩ | none
      · refine Or.inl ⟨c :: front, suffix, h, rfl, is, ?_⟩
        intro front' other h' eq is'
        cases front' with
        | nil => exact absurd ⟨h', eq ▸ is'⟩ whole
        | cons d front' => exact longest front' other h' (List.cons.inj eq).2 is'
      · right
        intro front suffix h eq is
        cases front with
        | nil => exact whole ⟨h, eq ▸ is⟩
        | cons d front => exact none front suffix h (List.cons.inj eq).2 is

private theorem reads_of_no_feed (g : Grammar) {text : List Char} (feed : '\n' ∉ text) :
    Reads g (lines text) text [] := by
  by_cases empty : text = []
  · subst empty
    exact .none
  · have no_header : ∀ front suffix h, text = front ++ suffix → ¬ IsHeader g suffix h := by
      rintro front suffix h rfl is
      obtain ⟨line, rfl, _⟩ := is.feed
      simp at feed
    have read := Reads.text no_header .none
    rw [List.append_nil] at read
    rw [lines_of_no_feed feed empty]
    exact read

/-- The scan reads a text as its lines are read. -/
private theorem reads_scan (g : Grammar) (text : List Char) :
    Reads g (lines text) (scan g text).1 (scan g text).2 := by
  by_cases feed : '\n' ∈ text
  · obtain ⟨line, rest, cut, unfed⟩ := List.eq_append_cons_of_mem feed
    have shorter : rest.length < text.length := by
      rw [cut, List.length_append, List.length_cons]
      omega
    have later := reads_scan g rest
    rw [cut, lines_append unfed]
    rcases longest_or_none g (line ++ ['\n']) with ⟨front, suffix, h, eq, is, longest⟩ | none
    · obtain ⟨tail, rfl, _⟩ := is.feed
      rw [← List.append_assoc] at eq
      obtain rfl := List.append_cancel_right eq
      have unfed_front : '\n' ∉ front := fun mem => unfed (List.mem_append_left _ mem)
      rw [List.append_assoc] at longest ⊢
      have spelled : front ++ tail ++ '\n' :: rest = front ++ (tail ++ ['\n']) ++ rest := by simp
      rw [spelled, scan_header_line is longest unfed_front]
      exact .header is longest later
    · have read := Reads.text none later
      rw [List.append_assoc, List.singleton_append] at read
      rw [scan_text_line unfed none]
      exact read
  · rw [scan_of_no_feed feed]
    exact reads_of_no_feed g feed
termination_by text.length
decreasing_by
  exact shorter

private theorem isHeader_unique {text : List Char} {h h' : Header} (is : IsHeader g text h)
    (is' : IsHeader g text h') : h = h' := by
  have read := header?_append is []
  rw [header?_append is' []] at read
  cases read
  rfl

/-- Lines are read in one way only. -/
private theorem Reads.unique {ls : List (List Char)} {before before' : List Char}
    {entries entries' : List Entry} (reads : Reads g ls before entries)
    (reads' : Reads g ls before' entries') : before = before' ∧ entries = entries' := by
  induction reads generalizing before' entries' with
  | none =>
    cases reads'
    exact ⟨rfl, rfl⟩
  | @header front suffix h rest body entries is longest _ ih =>
    generalize eq : front ++ suffix = line at reads'
    cases reads' with
    | @header _ suffix' _ _ _ _ is' longest' reads' =>
      have same_length : suffix.length = suffix'.length :=
        Nat.le_antisymm (longest' front suffix h eq.symm is) (longest _ suffix' _ eq is')
      obtain ⟨rfl, rfl⟩ := List.append_inj' eq same_length
      obtain rfl := isHeader_unique is is'
      obtain ⟨rfl, rfl⟩ := ih reads'
      exact ⟨rfl, rfl⟩
    | text none reads' => exact absurd is (none front suffix h eq.symm)
  | @text line rest body entries none _ ih =>
    cases reads' with
    | header is' _ _ => exact absurd is' (none _ _ _ rfl)
    | text _ reads' =>
      obtain ⟨rfl, rfl⟩ := ih reads'
      exact ⟨rfl, rfl⟩

/-- The parser gives the records of the entries that the lines of the stripped output are read
to. -/
theorem parse_eq_iff_reads (g : Grammar) (raw : String) (found : List Record) :
    parse g raw = found ↔ ∃ before entries,
      Reads g (lines (Terminal.strip raw.toList)) before entries ∧ Collects entries found := by
  have scanned := reads_scan g (Terminal.strip raw.toList)
  constructor
  · intro eq
    exact ⟨_, _, scanned, collects_iff.2 eq⟩
  · rintro ⟨before, entries, reads, collects⟩
    obtain ⟨_, rfl⟩ := scanned.unique reads
    exact collects_iff.1 collects

/-- The first character of a file is not the colon before the line: a text that would be a header of
an empty file is none, though it begins with a character that is not blank. -/
theorem no_entry_without_file :
    "[ERROR] At :1:2:\n".toList =
        "[ERROR] At ".toList ++ (Location.mk [] ['1'] ['2']).text ++ ':' :: ['\n'] ∧
      (Location.mk [] ['1'] ['2']).Cut ∧ Opens (Location.mk [] ['1'] ['2']).text ∧
      IsLineEnd ['\n'] ∧ Text.IsNumeral ['1'] 1 ∧ Text.IsNumeral ['2'] 2 ∧
      parse .tagged "[ERROR] At :1:2:\nx" = [] := by
  have cut : (Location.mk [] ['1'] ['2']).Cut :=
    ⟨by simp, by simp, by simp, by simp [Location.text]⟩
  refine ⟨rfl, cut, ⟨':', _, rfl, rfl⟩, ⟨[], [], by simp, Or.inl rfl, rfl⟩, ?_, ?_, ?_⟩
  · exact Text.numeral?_eq_some_iff.1 (by decide)
  · exact Text.numeral?_eq_some_iff.1 (by decide)
  · have no_header : ∀ suffix ∈ (Terminal.strip "[ERROR] At :1:2:\nx".toList).tails,
        header? .tagged suffix = none := by decide
    have scanned := scan_of_no_header no_header
    rw [parse, records, entries, scanned]
    rfl

end ModBench.Report
