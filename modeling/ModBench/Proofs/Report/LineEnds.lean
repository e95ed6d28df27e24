import Mathlib.Data.List.Basic
import ModBench.Proofs.Report.Reference
import ModBench.Proofs.Terminal

/-!
Line ends.  A report whose lines end in a carriage return and a line feed has the records of the one
whose lines end in a line feed alone, with the line ends inside their messages as they are written.
Every reader finds in the one text what it finds in the other.
-/

set_option autoImplicit false
set_option relaxedAutoImplicit false

namespace ModBench

/-- The text with a carriage return before every line feed. -/
def Text.withReturns : List Char → List Char
  | [] => []
  | c :: rest => if c = '\n' then '\r' :: '\n' :: withReturns rest else c :: withReturns rest

open Text (withReturns)

/-- The record with a carriage return before every line feed of its message. -/
def Record.withReturns (r : Record) : Record :=
  { r with message := String.ofList (Text.withReturns r.message.toList) }

namespace Text

@[simp] theorem withReturns_nil : withReturns [] = [] := rfl

@[simp] theorem withReturns_feed (rest : List Char) :
    withReturns ('\n' :: rest) = '\r' :: '\n' :: withReturns rest := rfl

theorem withReturns_cons {c : Char} (other : c ≠ '\n') (rest : List Char) :
    withReturns (c :: rest) = c :: withReturns rest :=
  if_neg other

private theorem withReturns_append (front back : List Char) :
    withReturns (front ++ back) = withReturns front ++ withReturns back := by
  induction front with
  | nil => rfl
  | cons c front ih =>
    rw [List.cons_append, withReturns, withReturns, ih]
    split <;> rfl

private theorem mem_withReturns {c : Char} (other : c ≠ '\r') {text : List Char} :
    c ∈ withReturns text ↔ c ∈ text := by
  induction text with
  | nil => exact Iff.rfl
  | cons d text ih =>
    by_cases feed : d = '\n'
    · rw [feed, withReturns_feed, List.mem_cons, List.mem_cons, List.mem_cons, ih]
      simp [other]
    · rw [withReturns_cons feed, List.mem_cons, List.mem_cons, ih]

end Text

namespace Report

/-! ### The readers -/

private theorem after?_withReturns {beginning : List Char} (feed : '\n' ∉ beginning)
    (ret : '\r' ∉ beginning) (text : List Char) :
    after? beginning (withReturns text) = (after? beginning text).map withReturns := by
  induction beginning generalizing text with
  | nil => rfl
  | cons c beginning ih =>
    rw [List.mem_cons, not_or] at feed ret
    cases text with
    | nil => rfl
    | cons d text =>
      by_cases ends : d = '\n'
      · subst ends
        rw [Text.withReturns_feed, after?, after?, if_neg (Ne.symm ret.1), if_neg (Ne.symm feed.1)]
        rfl
      · rw [Text.withReturns_cons ends, after?, after?, ih feed.2 ret.2]
        split <;> rfl

private theorem marker?_withReturns {ms : List (List Char × Severity)}
    (one_line : ∀ m ∈ ms, '\n' ∉ m.1 ∧ '\r' ∉ m.1) (text : List Char) :
    marker? ms (withReturns text) = (marker? ms text).map (Prod.map id withReturns) := by
  induction ms with
  | nil => rfl
  | cons m ms ih =>
    rw [List.forall_mem_cons] at one_line
    rw [marker?, marker?, after?_withReturns one_line.1.1 one_line.1.2, ih one_line.2]
    cases after? m.1 text <;> rfl

private theorem field?_withReturns (text : List Char) :
    field? (withReturns text) = (field? text).map (Prod.map id withReturns) := by
  induction text with
  | nil => rfl
  | cons c text ih =>
    by_cases ends : c = '\n'
    · subst ends
      rfl
    · rw [Text.withReturns_cons ends, field?, field?, if_neg ends, if_neg ends, ih]
      split
      · rfl
      · cases field? text <;> rfl

/-- A line end takes one carriage return more. -/
private theorem lineEnd?_withReturns {text : List Char} (returns : '\r' ∉ text) :
    lineEnd? (withReturns text) = (lineEnd? text).map withReturns := by
  fun_induction lineEnd? text with
  | case1 rest => rfl
  | case2 rest => exact absurd List.mem_cons_self returns
  | case3 rest ih => exact ih fun mem => returns (List.mem_cons_of_mem _ mem)
  | case4 rest ih => exact ih fun mem => returns (List.mem_cons_of_mem _ mem)
  | case5 text feed ret space tab =>
    cases text with
    | nil => rfl
    | cons c text =>
      have other : c ≠ '\n' := fun same => feed text (same ▸ rfl)
      rw [Text.withReturns_cons other, lineEnd?]
      · rfl
      · exact fun _ eq => other (List.cons.inj eq).1
      · exact fun _ eq => returns ((List.cons.inj eq).1 ▸ List.mem_cons_self)
      · exact fun _ eq => space _ (congrArg (· :: text) (List.cons.inj eq).1)
      · exact fun _ eq => tab _ (congrArg (· :: text) (List.cons.inj eq).1)

private theorem field?_subset {text value rest : List Char}
    (read : field? text = some (value, rest)) : rest ⊆ text := by
  obtain ⟨rfl, -, -⟩ := of_field? read
  exact fun c mem => List.mem_append_right _ (List.mem_cons_of_mem _ mem)

theorem fields?_withReturns {text : List Char} (returns : '\r' ∉ text) :
    fields? (withReturns text) = (fields? text).map (Prod.map id withReturns) := by
  rw [fields?, fields?, field?_withReturns]
  cases file : field? text with
  | none => rfl
  | some found =>
    have returns := fun mem => returns (field?_subset file mem)
    dsimp only [Option.map_some, Prod.map]
    rw [field?_withReturns]
    cases line : field? found.2 with
    | none => rfl
    | some found =>
      have returns := fun mem => returns (field?_subset line mem)
      dsimp only [Option.map_some, Prod.map]
      rw [field?_withReturns]
      cases column : field? found.2 with
      | none => rfl
      | some found =>
        have returns := fun mem => returns (field?_subset column mem)
        dsimp only [Option.map_some, Prod.map]
        rw [lineEnd?_withReturns returns]
        cases lineEnd? found.2 <;> rfl

private theorem drive?_withReturns (letter : Char) {text : List Char} (returns : '\r' ∉ text) :
    drive? letter (withReturns text) = (drive? letter text).map (Prod.map id withReturns) := by
  cases text with
  | nil => rfl
  | cons c text =>
    rw [List.mem_cons, not_or] at returns
    by_cases colon : c = ':'
    · subst colon
      rw [Text.withReturns_cons (by decide), drive?, drive?, fields?_withReturns returns.2]
      cases fields? text <;> rfl
    · rw [drive?_of_ne colon]
      by_cases ends : c = '\n'
      · subst ends
        rfl
      · rw [Text.withReturns_cons ends, drive?_of_ne colon]
        rfl

private theorem location?_withReturns {text : List Char} (returns : '\r' ∉ text) :
    location? (withReturns text) = (location? text).map (Prod.map id withReturns) := by
  cases text with
  | nil => rfl
  | cons c text =>
    by_cases ends : c = '\n'
    · subst ends
      rfl
    · rw [List.mem_cons, not_or] at returns
      rw [Text.withReturns_cons ends, location?, location?, drive?_withReturns c returns.2,
        fields?_withReturns returns.2]
      split
      · rfl
      · cases drive? c text
        · cases fields? text <;> rfl
        · rfl

/-- A header is read with carriage returns as it is without them. -/
private theorem header?_withReturns (g : Grammar) {text : List Char} (returns : '\r' ∉ text) :
    header? g (withReturns text) = (header? g text).map (Prod.map id withReturns) := by
  have one_line : ∀ m ∈ markers g, '\n' ∉ m.1 ∧ '\r' ∉ m.1 := by
    cases g <;> decide
  rw [header?, header?, marker?_withReturns one_line]
  cases marked : marker? (markers g) text with
  | none => rfl
  | some found =>
    have returns : '\r' ∉ found.2 := by
      obtain ⟨_, _, rfl⟩ := mem_of_marker? marked
      exact fun mem => returns (List.mem_append_right _ mem)
    dsimp only [Option.map_some, Prod.map]
    rw [location?_withReturns returns]
    cases location? found.2 <;> rfl

/-! ### The scan -/

/-- The entry with a carriage return before every line feed of the text after its header. -/
def Entry.withReturns (e : Entry) : Entry :=
  { e with body := Text.withReturns e.body }

private theorem header?_feed (g : Grammar) (text : List Char) :
    header? g ('\n' :: text) = none := by
  cases g <;> rfl

private theorem scan_withReturns (g : Grammar) {text : List Char} (returns : '\r' ∉ text) :
    scan g (withReturns text) =
      (withReturns (scan g text).1, (scan g text).2.map Entry.withReturns) := by
  cases cut : text with
  | nil =>
    rw [Text.withReturns_nil, scan]
    rfl
  | cons c rest =>
    have read := header?_withReturns g returns
    rw [cut] at read
    cases found : header? g (c :: rest) with
    | some result =>
      obtain ⟨header, more⟩ := result
      have shorter : more.length < text.length := cut ▸ header?_length_lt found
      have returns : '\r' ∉ more := by
        obtain ⟨_, _, eq⟩ := of_header? found
        exact fun mem => returns (cut ▸ eq ▸ List.mem_append_right _ mem)
      rw [found] at read
      rw [scan_of_header read, scan_of_header found, scan_withReturns g returns]
      rfl
    | none =>
      have shorter : rest.length < text.length := by simp [cut]
      have later := scan_withReturns g fun mem => returns (cut ▸ List.mem_cons_of_mem c mem)
      rw [found] at read
      rw [scan_of_none found]
      by_cases ends : c = '\n'
      · subst ends
        rw [Text.withReturns_feed] at read ⊢
        rw [scan_of_none read, scan_of_none (header?_feed g _), later]
        rfl
      · rw [Text.withReturns_cons ends] at read ⊢
        rw [scan_of_none read, later, Text.withReturns_cons ends]
termination_by text.length
decreasing_by
  all_goals exact shorter

/-! ### Records -/

/-- The line ends at the end of a message are dropped whole. -/
private theorem message_withReturns (e : Entry) :
    e.withReturns.message = withReturns e.message := by
  rw [Entry.message, Entry.message, Text.dropTrailing_eq_rdropWhile,
    Text.dropTrailing_eq_rdropWhile, Entry.withReturns]
  dsimp only
  induction e.body using List.reverseRecOn with
  | nil => rfl
  | append_singleton body c ih =>
    rw [Text.withReturns_append]
    by_cases ends : c = '\n'
    · subst ends
      have pair : withReturns ['\n'] = ['\r'] ++ ['\n'] := rfl
      rw [pair, ← List.append_assoc, List.rdropWhile_concat_pos _ _ _ rfl,
        List.rdropWhile_concat_pos _ _ _ rfl, List.rdropWhile_concat_pos _ _ _ rfl, ih]
    · rw [Text.withReturns_cons ends, Text.withReturns_nil, List.rdropWhile_concat,
        List.rdropWhile_concat, ih]
      split
      · rfl
      · rw [Text.withReturns_append, Text.withReturns_cons ends, Text.withReturns_nil]

private theorem record?_withReturns (e : Entry) :
    e.withReturns.record? = e.record?.map Record.withReturns := by
  rw [Entry.record?, Entry.record?, message_withReturns]
  dsimp only [Entry.withReturns]
  split
  · rw [Option.map_some, Record.withReturns, String.toList_ofList]
  · rfl

/-- A text without carriage returns and the same text with one before every line feed give the same
records, with the same difference in their messages. -/
theorem line_ends_do_not_matter (g : Grammar) (raw : String) (returns : '\r' ∉ raw.toList)
    (plain : Terminal.Plain raw.toList) :
    parse g (String.ofList (withReturns raw.toList)) = (parse g raw).map Record.withReturns := by
  have plain' : Terminal.Plain (withReturns raw.toList) :=
    ⟨fun mem => plain.1 ((Text.mem_withReturns (by decide)).1 mem),
      fun mem => plain.2 ((Text.mem_withReturns (by decide)).1 mem)⟩
  rw [parse, parse, String.toList_ofList, Terminal.strip_of_plain plain,
    Terminal.strip_of_plain plain', records, records, entries, entries, scan_withReturns g returns,
    List.filterMap_map, List.map_filterMap]
  exact List.filterMap_congr fun e _ => record?_withReturns e

/-- A report with blanks behind a header, an empty line in a message and two at its end, a
malformed entry, and no line end at its own end. -/
def unevenReport : String :=
  "[WARN] At a:2:4: \t\nunused\n\nname\n\n\n[ERROR] At b:x:1:\n[INFO] At c:9:1:\nlast"

theorem uneven_report_with_returns :
    '\r' ∉ unevenReport.toList ∧ Terminal.Plain unevenReport.toList ∧
      String.ofList (withReturns unevenReport.toList) =
        "[WARN] At a:2:4: \t\r\nunused\r\n\r\nname\r\n\r\n\r\n[ERROR] At b:x:1:\r\n" ++
          "[INFO] At c:9:1:\r\nlast" ∧
      parse .tagged (String.ofList (withReturns unevenReport.toList)) =
        [⟨"a", 2, 4, "unused\r\n\r\nname", .warning⟩, ⟨"c", 9, 1, "last", .info⟩] := by
  have returns : '\r' ∉ unevenReport.toList := by decide
  have plain : Terminal.Plain unevenReport.toList := ⟨by decide, by decide⟩
  have read : parse .tagged unevenReport =
      [⟨"a", 2, 4, "unused\n\nname", .warning⟩, ⟨"c", 9, 1, "last", .info⟩] := by
    decide +kernel
  refine ⟨returns, plain, by decide +kernel, ?_⟩
  rw [line_ends_do_not_matter .tagged unevenReport returns plain, read]
  rfl

end Report

end ModBench
