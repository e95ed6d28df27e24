import Mathlib.Data.List.ModifyLast
import ModBench.Cli.Check
import ModBench.Proofs.Path.Spelling
import ModBench.Proofs.Report.Grammar
import ModBench.Proofs.Text.Bytes
import ModBench.Proofs.Text.Tokens

/-!
The printed report of a check read back.  A line that starts with a slash begins a record and a line
that starts with four spaces continues it.  As long as files lie at absolute paths of one line
without a colon, this gives back every record with its position and the lines of its message,
whatever these look like; the closing line counts them.  A path is given back as it is shown, which
is the path itself exactly if it is text.
-/

set_option autoImplicit false
set_option relaxedAutoImplicit false

namespace ModBench

/-! ### Lines of texts -/

namespace Text

private theorem mem_of_mem_dropReturn {c : Char} {line : List Char} (mem : c ∈ dropReturn line) :
    c ∈ line := by
  fun_induction dropReturn line with
  | case1 => exact mem
  | case2 => exact absurd mem List.not_mem_nil
  | case3 d rest _ ih =>
    rcases List.mem_cons.1 mem with rfl | mem
    · exact List.mem_cons_self
    · exact List.mem_cons_of_mem _ (ih mem)

private theorem feedless_terminate {pieces : List (List Char)}
    (feedless : ∀ piece ∈ pieces, '\n' ∉ piece) : ∀ line ∈ terminate pieces, '\n' ∉ line := by
  fun_induction terminate pieces with
  | case1 => exact fun _ mem => absurd mem List.not_mem_nil
  | case2 => exact fun _ mem => absurd mem List.not_mem_nil
  | case3 => exact feedless
  | case4 piece rest _ ih =>
    rw [List.forall_mem_cons] at feedless ⊢
    exact ⟨fun mem => feedless.1 (mem_of_mem_dropReturn mem), ih feedless.2⟩

private theorem feedless_lines (text : List Char) : ∀ line ∈ lines text, '\n' ∉ line :=
  feedless_terminate (not_mem_of_mem_split '\n' text)

private theorem join_cons_eq (sep : Char) (first : List Char) (rest : List (List Char)) :
    join sep (first :: rest) = first ++ rest.flatMap fun line => sep :: line := by
  induction rest generalizing first with
  | nil => simp [join]
  | cons next rest ih =>
    rw [join_cons sep first (List.cons_ne_nil next rest), ih, List.flatMap_cons, List.cons_append]

/-- Groups of lines, each line with its line feed, are cut into these lines. -/
private theorem split_flatMap {α : Type} {items : List α} {linesOf : α → List (List Char)}
    (filled : ∀ item ∈ items, linesOf item ≠ [])
    (feedless : ∀ item ∈ items, ∀ line ∈ linesOf item, '\n' ∉ line) (rest : List Char) :
    split '\n' ((items.flatMap fun item => join '\n' (linesOf item) ++ ['\n']) ++ rest) =
      items.flatMap linesOf ++ split '\n' rest := by
  induction items with
  | nil => rfl
  | cons item items ih =>
    rw [List.forall_mem_cons] at filled feedless
    rw [List.flatMap_cons, List.flatMap_cons, List.append_assoc, List.append_assoc,
      List.append_assoc, List.singleton_append, split_append_sep,
      split_join filled.1 feedless.1, ih filled.2 feedless.2]

end Text

namespace Cli

/-! ### What is read -/

/-- A record as a report shows it. -/
structure Listed where
  path : String
  line : UInt32
  column : UInt32
  severity : Severity
  message : List (List Char)
  deriving DecidableEq, Repr

/-- How many records of each severity there are. -/
structure Tally where
  errors : Nat
  warnings : Nat
  infos : Nat
  deriving DecidableEq, Repr

/-- A report: its records in their order, and the numbers of its closing line if it has one. -/
structure Reading where
  listed : List Listed
  closing : Option Tally
  deriving DecidableEq, Repr

/-- The lines of a message; an empty message has one that is blank. -/
def messageLines (message : String) : List (List Char) :=
  match Text.lines message.toList with
  | [] => [[]]
  | lines => lines

def Listed.ofRecord (p : Path) (r : Record) : Listed :=
  ⟨p.toString, r.line, r.column, r.severity, messageLines r.message⟩

/-- All records of a snapshot, file after file. -/
def listed (s : Snapshot) : List Listed :=
  s.files.flatMap fun f => f.2.map (Listed.ofRecord f.1)

def tallyOf (items : List Listed) : Tally :=
  ⟨items.countP fun i => i.severity = .error, items.countP fun i => i.severity = .warning,
    items.countP fun i => i.severity = .info⟩

/-! ### The reader -/

/-- What a line is to a reader. -/
inductive LineKind where
  | opening
  | continuing (text : List Char)
  | other

def kindOf : List Char → LineKind
  | '/' :: _ => .opening
  | ' ' :: ' ' :: ' ' :: ' ' :: text => .continuing text
  | _ => .other

/-- The line that begins a record, and what the lines behind it say. -/
structure Block where
  opening : List Char
  more : List (List Char)

/-- The blocks of a text with one line more. -/
def addLine (found : List Block) (line : List Char) : List Block :=
  match kindOf line with
  | .opening => found ++ [⟨line, []⟩]
  | .continuing text => found.modifyLast fun b => { b with more := b.more ++ [text] }
  | .other => found

def blocks (lines : List (List Char)) : List Block :=
  lines.foldl addLine []

/-- Whether a line has a text that belongs to no record. -/
def isRemark (line : List Char) : Bool :=
  match kindOf line with
  | .other => !line.isEmpty
  | _ => false

def severity? (label : List Char) : Option Severity :=
  [Severity.error, .warning, .info].find? fun s => s.label.toList = label

/-- Read the first line of a record as `path:line:column: severity: text`. -/
def Block.listed? (b : Block) : Option Listed := do
  let (path, rest) ← Report.field? b.opening
  let (line, rest) ← Report.field? rest
  let (column, rest) ← Report.field? rest
  let (label, text) ← Report.field? rest
  return ⟨String.ofList path, ← Text.numeral32? line, ← Text.numeral32? column,
    ← severity? (label.drop 1), text.drop 1 :: b.more⟩

/-- Read a closing line. -/
def tally? (line : List Char) : Option Tally :=
  match Text.split ' ' line with
  | [errors, errorWord, warnings, warningWord, infos, infoWord] =>
    if errorWord = "error(s),".toList ∧ warningWord = "warning(s),".toList ∧
        infoWord = "info".toList then do
      return ⟨← Text.numeral? errors, ← Text.numeral? warnings, ← Text.numeral? infos⟩
    else none
  | _ => none

/-- Read a report; only a closing line may stand in it beside the records. -/
def read? (text : List Char) : Option Reading := do
  let lines := Text.split '\n' text
  let items ← (blocks lines).mapM Block.listed?
  match lines.filter isRemark with
  | [] => return ⟨items, none⟩
  | [line] => return ⟨items, some (← tally? line)⟩
  | _ => none

/-! ### The lines of a message -/

private theorem messageLines_eq (message : String) : messageLines message =
    (Text.lines message.toList).headD [] :: (Text.lines message.toList).tail := by
  unfold messageLines
  cases Text.lines message.toList <;> rfl

/-! ### What is printed -/

theorem foldl_line (out : String) (lines : List String) :
    lines.foldl (fun out line => out ++ "\n    " ++ line) out =
      out ++ Record.continuation lines := by
  induction lines generalizing out with
  | nil => simp [Record.continuation]
  | cons line lines ih =>
    rw [List.foldl_cons, ih]
    simp [Record.continuation, String.append_assoc]

/-- A check prints the text form of a record, with the path in the place of its file. -/
private theorem formatText_eq_text (p : Path) (r : Record) :
    formatText p r = ({ r with file := p.toString } : Record).text := by
  unfold formatText Record.text Record.headline
  dsimp only
  rw [foldl_line]
  cases Text.linesOf r.message with
  | nil => simp [Record.continuation]
  | cons first rest => simp [String.append_assoc]

def indented (line : List Char) : List Char :=
  ' ' :: ' ' :: ' ' :: ' ' :: line

/-- The line that begins a record. -/
def openingLine (p : Path) (r : Record) (text : List Char) : List Char :=
  p.toString.toList ++ ':' :: ((toString r.line.toNat).toList ++
    ':' :: ((toString r.column.toNat).toList ++
    ':' :: (' ' :: r.severity.label.toList ++ ':' :: ' ' :: text)))

def printedLines (p : Path) (r : Record) : List (List Char) :=
  openingLine p r ((Text.lines r.message.toList).headD []) ::
    (Text.lines r.message.toList).tail.map indented

private theorem toList_continuation (lines : List (List Char)) :
    (Record.continuation (lines.map String.ofList)).toList =
      (lines.map indented).flatMap fun line => '\n' :: line := by
  have feed : "\n    ".toList = ['\n', ' ', ' ', ' ', ' '] := by decide
  rw [Record.continuation, String.toList_join, List.flatMap_map, List.flatMap_map, List.flatMap_map]
  simp only [String.toList_append, feed, String.toList_ofList, indented, List.cons_append,
    List.nil_append]

private theorem toList_formatText (p : Path) (r : Record) :
    (formatText p r).toList = Text.join '\n' (printedLines p r) := by
  have colon : ":".toList = [':'] := by decide
  have blank : ": ".toList = [':', ' '] := by decide
  have first : (Text.linesOf r.message).headD "" =
      String.ofList ((Text.lines r.message.toList).headD []) := by
    unfold Text.linesOf
    cases Text.lines r.message.toList <;> rfl
  have more : (Text.linesOf r.message).tail =
      (Text.lines r.message.toList).tail.map String.ofList := List.map_tail.symm
  unfold formatText printedLines
  dsimp only
  rw [foldl_line, Text.join_cons_eq, String.toList_append, first, more, toList_continuation]
  simp only [openingLine, String.toList_append, colon, blank, String.toList_ofList,
    List.append_assoc, List.cons_append, List.nil_append]

/-! ### One record -/

/-- A path that begins a line of its own and ends at the first colon of it. -/
structure Showable (p : Path) : Prop where
  absolute : p.isAbsolute = true
  one_line : 0x0a ∉ p.bytes
  colonless : 0x3a ∉ p.bytes

section

variable {p : Path}

theorem Showable.feedless_shown (showable : Showable p) : '\n' ∉ p.toString.toList :=
  Text.not_mem_decodeLossy rfl (by decide) (by decide) showable.one_line

private theorem Showable.colonless_shown (showable : Showable p) : ':' ∉ p.toString.toList :=
  Text.not_mem_decodeLossy rfl (by decide) (by decide) showable.colonless

/-- A path from the root is shown from its slash on. -/
private theorem Showable.slash_shown (showable : Showable p) :
    ∃ rest, p.toString.toList = '/' :: rest := by
  obtain ⟨bytes⟩ := p
  cases bytes with
  | nil => exact absurd showable.absolute (by decide)
  | cons b rest =>
    obtain rfl : b = slash := by simpa [Path.isAbsolute] using showable.absolute
    rw [Path.toString, Text.decodeLossy, Text.readChars, Text.readBehind_ascii (by decide),
      String.toList_ofList]
    exact ⟨_, rfl⟩

/-- What is shown of a path is the path itself exactly if it is text. -/
private theorem ofString_toString_iff : Path.ofString p.toString = p ↔ p.text?.isSome := by
  constructor
  · intro same
    rw [← same, Path.text?, Path.ofString, Text.decode?_encodeString]
    rfl
  · intro text
    obtain ⟨s, read⟩ := Option.isSome_iff_exists.1 text
    obtain rfl : p = Path.ofString s := congrArg Path.mk (Text.decode?_eq_some_iff.1 read)
    exact congrArg Path.ofString (Text.decodeLossy_encodeString s)

theorem not_mem_toString {c : Char} (other : ¬ Text.IsDigit c) (n : Nat) :
    c ∉ (toString n).toList :=
  fun mem => other (Text.isDigit_of_mem_toString mem)

private theorem numeral32?_toString (n : UInt32) :
    Text.numeral32? (toString n.toNat).toList = some n :=
  Text.numeral32?_eq_some_iff.2 (Text.isNumeral_toString n.toNat)

private theorem feedless_openingLine (showable : Showable p) (r : Record) {text : List Char}
    (feedless : '\n' ∉ text) : '\n' ∉ openingLine p r text := by
  have digits := not_mem_toString (c := '\n') (by decide)
  have label : '\n' ∉ r.severity.label.toList := by cases r.severity <;> decide
  simp only [openingLine, List.mem_append, List.mem_cons, showable.feedless_shown, digits, label,
    feedless, Char.reduceEq, or_self, not_false_eq_true]

private theorem feedless_printedLines (showable : Showable p) (r : Record) :
    ∀ line ∈ printedLines p r, '\n' ∉ line := by
  have feedless := Text.feedless_lines r.message.toList
  rw [printedLines, List.forall_mem_cons]
  constructor
  · apply feedless_openingLine showable
    cases lines : Text.lines r.message.toList with
    | nil => exact List.not_mem_nil
    | cons first rest => exact feedless first (lines ▸ List.mem_cons_self)
  · intro line mem
    obtain ⟨text, among, rfl⟩ := List.mem_map.1 mem
    have plain := feedless text (List.mem_of_mem_tail among)
    simp [indented, plain]

/-- The block of a printed record. -/
def blockOf (p : Path) (r : Record) : Block :=
  ⟨openingLine p r ((Text.lines r.message.toList).headD []), (Text.lines r.message.toList).tail⟩

private theorem severity?_label (s : Severity) : severity? s.label.toList = some s := by
  cases s <;> decide

/-- The first line of a record is read back, and with it the record. -/
private theorem listed?_blockOf (showable : Showable p) (r : Record) :
    (blockOf p r).listed? = some (Listed.ofRecord p r) := by
  have digits_colon := not_mem_toString (c := ':') (by decide)
  have digits_feed := not_mem_toString (c := '\n') (by decide)
  have label_colon : ':' ∉ ' ' :: r.severity.label.toList := by cases r.severity <;> decide
  have label_feed : '\n' ∉ ' ' :: r.severity.label.toList := by cases r.severity <;> decide
  simp only [Block.listed?, blockOf, openingLine,
    Report.field?_append showable.colonless_shown showable.feedless_shown,
    Report.field?_append (digits_colon _) (digits_feed _),
    Report.field?_append label_colon label_feed, numeral32?_toString, List.drop_succ_cons,
    List.drop_zero, severity?_label, Option.bind_eq_bind, Option.bind_some, Listed.ofRecord,
    messageLines_eq, String.ofList_toList]
  rfl

theorem kindOf_openingLine (showable : Showable p) (r : Record) (text : List Char) :
    kindOf (openingLine p r text) = .opening := by
  obtain ⟨rest, spelled⟩ := showable.slash_shown
  rw [openingLine, spelled]
  rfl

private theorem kindOf_indented (text : List Char) :
    kindOf (indented text) = .continuing text := rfl

/-- Indented lines go to the last record. -/
private theorem foldl_addLine_indented (found : List Block) (b : Block) (more : List (List Char)) :
    (more.map indented).foldl addLine (found ++ [b]) =
      found ++ [{ b with more := b.more ++ more }] := by
  induction more generalizing b with
  | nil => simp
  | cons text more ih =>
    have one : addLine (found ++ [b]) (indented text) =
        found ++ [{ b with more := b.more ++ [text] }] := by
      rw [addLine, kindOf_indented]
      exact List.modifyLast_concat _ b found
    rw [List.map_cons, List.foldl_cons, one, ih]
    simp

private theorem foldl_addLine_printedLines (showable : Showable p) (r : Record)
    (found : List Block) : (printedLines p r).foldl addLine found = found ++ [blockOf p r] := by
  rw [printedLines, List.foldl_cons, addLine, kindOf_openingLine showable, foldl_addLine_indented]
  rfl

private theorem filter_isRemark_printedLines (showable : Showable p) (r : Record) :
    (printedLines p r).filter isRemark = [] := by
  rw [List.filter_eq_nil_iff, printedLines, List.forall_mem_cons]
  constructor
  · simp [isRemark, kindOf_openingLine showable]
  · intro line mem
    obtain ⟨text, _, rfl⟩ := List.mem_map.1 mem
    simp [isRemark, kindOf_indented]

end

/-! ### The records of a report -/

/-- The records of a snapshot with the paths of their files. -/
def shown (s : Snapshot) : List (Path × Record) :=
  s.files.flatMap fun f => f.2.map fun r => (f.1, r)

variable {s : Snapshot}

theorem listed_eq (s : Snapshot) :
    listed s = (shown s).map fun e => Listed.ofRecord e.1 e.2 := by
  rw [listed, shown, List.map_flatMap]
  simp only [List.map_map, Function.comp_def]

theorem records_eq (s : Snapshot) : s.records = (shown s).map Prod.snd := by
  rw [Snapshot.records, shown, List.map_flatMap]
  simp only [List.map_map, Function.comp_def, List.map_id']

private theorem toList_records (s : Snapshot) :
    (String.join (s.files.map fileText)).toList =
      (shown s).flatMap fun e => Text.join '\n' (printedLines e.1 e.2) ++ ['\n'] := by
  have feed : "\n".toList = ['\n'] := by decide
  rw [String.toList_join, List.flatMap_map, shown, List.flatMap_assoc]
  simp only [fileText, String.toList_join, List.flatMap_map, String.toList_append, feed,
    toList_formatText]

/-! ### The closing line -/

def closingText (s : Snapshot) : String :=
  if 0 < s.total then "\n" ++ summary s ++ "\n" else ""

def closingLines (s : Snapshot) : List (List Char) :=
  if 0 < s.total then [[], (summary s).toList, []] else [[]]

/-- The words of a closing line. -/
def closingWords (s : Snapshot) : List (List Char) :=
  [(toString (s.count .error)).toList, "error(s),".toList, (toString (s.count .warning)).toList,
    "warning(s),".toList, (toString (s.count .info)).toList, "info".toList]

theorem toList_summary (s : Snapshot) : (summary s).toList = Text.join ' ' (closingWords s) := by
  have errors : " error(s), ".toList = ' ' :: "error(s),".toList ++ [' '] := by decide
  have warnings : " warning(s), ".toList = ' ' :: "warning(s),".toList ++ [' '] := by decide
  have infos : " info".toList = ' ' :: "info".toList := by decide
  simp only [summary, closingWords, Text.join, String.toList_append, errors, warnings, infos,
    List.append_assoc, List.cons_append, List.nil_append]

private theorem blankless_closingWords (s : Snapshot) : ∀ word ∈ closingWords s, ' ' ∉ word := by
  have digits := not_mem_toString (c := ' ') (by decide)
  have words : ∀ word ∈ ["error(s),".toList, "warning(s),".toList, "info".toList], ' ' ∉ word := by
    decide
  simp only [List.forall_mem_cons] at words
  simp only [closingWords, List.forall_mem_cons, digits, words, not_false_eq_true, true_and,
    List.not_mem_nil, false_implies, implies_true]

private theorem feedless_summary (s : Snapshot) : '\n' ∉ (summary s).toList := by
  have digits := not_mem_toString (c := '\n') (by decide)
  have words : '\n' ∉ " error(s), ".toList ∧ '\n' ∉ " warning(s), ".toList ∧
      '\n' ∉ " info".toList := by decide
  simp only [summary, String.toList_append, List.mem_append, digits, words, or_self,
    not_false_eq_true]

private theorem tally?_summary (s : Snapshot) :
    tally? (summary s).toList = some ⟨s.count .error, s.count .warning, s.count .info⟩ := by
  have words : Text.split ' ' (summary s).toList = closingWords s := by
    rw [toList_summary]
    exact Text.split_join (List.cons_ne_nil _ _) (blankless_closingWords s)
  have numerals : ∀ n : Nat, Text.numeral? (toString n).toList = some n := fun n =>
    Text.numeral?_eq_some_iff.2 (Text.isNumeral_toString n)
  unfold tally?
  rw [words, closingWords]
  simp only [and_self, if_true, numerals, Option.bind_eq_bind, Option.bind_some]
  rfl

private theorem split_closingText (s : Snapshot) :
    Text.split '\n' (closingText s).toList = closingLines s := by
  have feed : "\n".toList = ['\n'] := by decide
  unfold closingText closingLines
  split
  · have around : ("\n" ++ summary s ++ "\n").toList =
        [] ++ '\n' :: ((summary s).toList ++ '\n' :: []) := by
      simp only [String.toList_append, feed, List.cons_append, List.nil_append]
    rw [around, Text.split_append_sep, Text.split_append_sep,
      Text.split_of_apart (feedless_summary s)]
    rfl
  · rfl

private theorem kindOf_of_isDigit {c : Char} (digit : Text.IsDigit c) (rest : List Char) :
    kindOf (c :: rest) = .other := by
  unfold kindOf
  split
  · rename_i slash
    obtain ⟨rfl, _⟩ := List.cons.inj slash
    exact absurd digit.1 (by decide)
  · rename_i blank
    obtain ⟨rfl, _⟩ := List.cons.inj blank
    exact absurd digit.1 (by decide)
  · rfl

/-- A closing line begins with a digit and so belongs to no record. -/
theorem kindOf_summary (s : Snapshot) :
    kindOf (summary s).toList = .other ∧ (summary s).toList ≠ [] := by
  have filled : (toString (s.count .error)).toList ≠ [] := by
    rw [Text.toList_toString]
    exact Nat.toDigits_ne_nil
  obtain ⟨c, rest, eq⟩ := List.exists_cons_of_ne_nil filled
  have digit : Text.IsDigit c := Text.isDigit_of_mem_toString (eq ▸ List.mem_cons_self)
  obtain ⟨more, spelled⟩ : ∃ more, (summary s).toList = c :: more := by
    rw [toList_summary, closingWords, eq]
    exact ⟨_, rfl⟩
  rw [spelled]
  exact ⟨kindOf_of_isDigit digit more, List.cons_ne_nil c more⟩

private theorem foldl_addLine_closingLines (s : Snapshot) (found : List Block) :
    (closingLines s).foldl addLine found = found := by
  have blank : addLine found [] = found := rfl
  have counts : addLine found (summary s).toList = found := by
    rw [addLine, (kindOf_summary s).1]
  unfold closingLines
  split
  · rw [List.foldl_cons, blank, List.foldl_cons, counts, List.foldl_cons, blank, List.foldl_nil]
  · exact blank

private theorem filter_isRemark_closingLines (s : Snapshot) :
    (closingLines s).filter isRemark = if 0 < s.total then [(summary s).toList] else [] := by
  have remark : isRemark (summary s).toList = true := by
    simp [isRemark, (kindOf_summary s).1, (kindOf_summary s).2]
  unfold closingLines
  split
  · rw [List.filter_cons_of_neg (by decide), List.filter_cons_of_pos remark,
      List.filter_cons_of_neg (by decide), List.filter_nil]
  · rfl

/-! ### The whole report -/

theorem showable_of_mem_shown (showable : ∀ f ∈ s.files, Showable f.1) {e : Path × Record}
    (mem : e ∈ shown s) : Showable e.1 := by
  obtain ⟨f, among, inside⟩ := List.mem_flatMap.1 mem
  obtain ⟨r, _, rfl⟩ := List.mem_map.1 inside
  exact showable f among

/-- The lines of a report: those of its records, and the closing ones. -/
private theorem split_textReport (showable : ∀ f ∈ s.files, Showable f.1) :
    Text.split '\n' (textReport s).toList =
      (shown s).flatMap (fun e => printedLines e.1 e.2) ++ closingLines s := by
  have filled : ∀ e ∈ shown s, printedLines e.1 e.2 ≠ [] := fun e _ => List.cons_ne_nil _ _
  have feedless : ∀ e ∈ shown s, ∀ line ∈ printedLines e.1 e.2, '\n' ∉ line := fun e mem =>
    feedless_printedLines (showable_of_mem_shown showable mem) e.2
  rw [textReport, String.toList_append, toList_records, Text.split_flatMap filled feedless]
  exact congrArg _ (split_closingText s)

private theorem foldl_addLine_shown {items : List (Path × Record)}
    (showable : ∀ e ∈ items, Showable e.1) (found : List Block) :
    (items.flatMap fun e => printedLines e.1 e.2).foldl addLine found =
      found ++ items.map fun e => blockOf e.1 e.2 := by
  induction items generalizing found with
  | nil => simp
  | cons e items ih =>
    rw [List.forall_mem_cons] at showable
    rw [List.flatMap_cons, List.foldl_append, foldl_addLine_printedLines showable.1,
      ih showable.2, List.append_assoc]
    rfl

private theorem mapM_listed? {items : List (Path × Record)} (showable : ∀ e ∈ items, Showable e.1) :
    (items.map fun e => blockOf e.1 e.2).mapM Block.listed? =
      some (items.map fun e => Listed.ofRecord e.1 e.2) := by
  induction items with
  | nil => rfl
  | cons e items ih =>
    rw [List.forall_mem_cons] at showable
    rw [List.map_cons, List.mapM_cons, listed?_blockOf showable.1, ih showable.2]
    rfl

/-- The numbers of a closing line are those of the records that are listed. -/
private theorem tallyOf_listed (s : Snapshot) :
    tallyOf (listed s) = ⟨s.count .error, s.count .warning, s.count .info⟩ := by
  have counted : ∀ severity, (listed s).countP (fun i => i.severity = severity) =
      s.count severity := by
    intro severity
    rw [Snapshot.count, records_eq, listed_eq, List.countP_map, List.countP_map]
    rfl
  simp only [tallyOf, counted]

private theorem total_pos_iff (s : Snapshot) : 0 < s.total ↔ listed s ≠ [] := by
  rw [Snapshot.total, records_eq, List.length_map, List.length_pos_iff, listed_eq, ne_eq, ne_eq,
    List.map_eq_nil_iff]

/-- A report is read back as the records that were printed and, if there are any, their numbers. -/
private theorem read?_textReport (showable : ∀ f ∈ s.files, Showable f.1) :
    read? (textReport s).toList =
      some ⟨listed s, if listed s = [] then none else some (tallyOf (listed s))⟩ := by
  have paths : ∀ e ∈ shown s, Showable e.1 := fun e => showable_of_mem_shown showable
  have found : blocks (Text.split '\n' (textReport s).toList) =
      (shown s).map fun e => blockOf e.1 e.2 := by
    rw [blocks, split_textReport showable, List.foldl_append, foldl_addLine_closingLines,
      foldl_addLine_shown paths, List.nil_append]
  have none_inside : ((shown s).flatMap fun e => printedLines e.1 e.2).filter isRemark = [] := by
    rw [List.filter_flatMap, List.flatMap_eq_nil_iff]
    exact fun e mem => filter_isRemark_printedLines (paths e mem) e.2
  have remarks : (Text.split '\n' (textReport s).toList).filter isRemark =
      if 0 < s.total then [(summary s).toList] else [] := by
    rw [split_textReport showable, List.filter_append, none_inside, List.nil_append,
      filter_isRemark_closingLines]
  unfold read?
  simp only [found, mapM_listed? paths, remarks, Option.bind_eq_bind, Option.bind_some,
    ← listed_eq]
  by_cases some_record : 0 < s.total
  · rw [if_pos some_record, if_neg ((total_pos_iff s).1 some_record), tallyOf_listed]
    simp only [tally?_summary, Option.bind_some]
    rfl
  · have none : listed s = [] := by
      by_contra some_record'
      exact some_record ((total_pos_iff s).2 some_record')
    rw [if_neg some_record, if_pos none]
    rfl

/-- The printed report of a check can be read back when all files lie at absolute paths of one line
without a colon: it gives every record in its place with its path as it is shown, its position, its
severity and the lines of its message, and the closing line, which is there exactly if some record
is, counts these records.  The path itself is what is shown exactly if it is text.  Each record is
printed in its text form, with the path for its file. -/
theorem text_report_reads_back (s : Snapshot) (showable : ∀ f ∈ s.files, Showable f.1) :
    read? (textReport s).toList =
      some ⟨listed s, if listed s = [] then none else some (tallyOf (listed s))⟩ ∧
    (∀ p : Path, Path.ofString p.toString = p ↔ p.text?.isSome) ∧
    ∀ (p : Path) (r : Record), formatText p r = ({ r with file := p.toString } : Record).text :=
  ⟨read?_textReport showable, fun _ => ofString_toString_iff, formatText_eq_text⟩

private def deceptive : Record :=
  ⟨"a.reds", 3, 1, "first\r\n\n/ws/b.reds:1:1: error: x\n    deep", .error⟩

private def wordless : Record :=
  ⟨"a.reds", 0, 4294967295, "", .info⟩

/-- A message with a blank line, a line like another record's and an indented line is told apart
from the record behind it, which has no message; and so is a path that is not text. -/
theorem deceptive_message_is_read_back :
    let p : Path := .ofString "/ws/a b.reds"
    let odd : Path := ⟨[0x2f, 0xff]⟩
    (Showable p ∧ Showable odd) ∧
      read? (textReport ⟨[(p, [deceptive, wordless]), (odd, [wordless])]⟩).toList =
        some ⟨[⟨"/ws/a b.reds", 3, 1, .error,
              ["first".toList, [], "/ws/b.reds:1:1: error: x".toList, "    deep".toList]⟩,
            ⟨"/ws/a b.reds", 0, 4294967295, .info, [[]]⟩,
            ⟨"/\ufffd", 0, 4294967295, .info, [[]]⟩],
          some ⟨1, 0, 2⟩⟩ := by
  intro p odd
  have showable : Showable p ∧ Showable odd :=
    ⟨⟨by decide, by decide, by decide⟩, ⟨by decide, by decide, by decide⟩⟩
  have all : ∀ f ∈ [((p, [deceptive, wordless]) : FileRecords), (odd, [wordless])],
      Showable f.1 := by simp [showable]
  have read := (text_report_reads_back ⟨_⟩ all).1
  exact ⟨showable, read.trans (by decide +kernel)⟩

/-- Two paths that are not text may be shown alike, and a message may be printed without the
carriage returns of its line ends; so no reader gets either back. -/
theorem odd_paths_are_shown_alike :
    let one : Path := ⟨[0x2f, 0xfe]⟩
    let other : Path := ⟨[0x2f, 0xff]⟩
    let warning (message : String) : Record := ⟨"a.reds", 1, 1, message, .warning⟩
    (Showable one ∧ Showable other ∧ one.same other = false ∧
      textReport ⟨[(one, [warning "x"])]⟩ = textReport ⟨[(other, [warning "x"])]⟩) ∧
    ∃ p, Showable p ∧
      textReport ⟨[(p, [warning "x\r\ny"])]⟩ = textReport ⟨[(p, [warning "x\ny"])]⟩ ∧
      Text.split '\n' "x\r\ny".toList ≠ Text.split '\n' "x\ny".toList := by
  refine ⟨⟨⟨by decide, by decide, by decide⟩, ⟨by decide, by decide, by decide⟩, by decide, ?_⟩,
    .ofString "/ws/a.reds", ⟨by decide, by decide, by decide⟩, ?_, by decide⟩
  · decide +kernel
  · decide +kernel

end Cli

end ModBench
