import Mathlib.Data.List.Infix
import Mathlib.Tactic.SplitIfs
import ModBench.Report

/-!
Escape sequences in texts.  Complete sequences are taken out of a text and nothing else is, so that
a report reads the same with sequences in it and without them.  Of any text at all a subsequence is
left in which no sequence opens.
-/

set_option autoImplicit false
set_option relaxedAutoImplicit false

namespace ModBench.Terminal

/-! ### Texts without sequences -/

/-- No escape sequence opens in the text. -/
def Plain (text : List Char) : Prop :=
  esc ∉ text ∧ introducer ∉ text

theorem Plain.append {one other : List Char} (plain : Plain one) (plain' : Plain other) :
    Plain (one ++ other) := by
  constructor
  · rw [List.mem_append, not_or]
    exact ⟨plain.1, plain'.1⟩
  · rw [List.mem_append, not_or]
    exact ⟨plain.2, plain'.2⟩

private theorem Plain.cons {c : Char} {text : List Char} (escapes : c ≠ esc)
    (introduces : c ≠ introducer) (plain : Plain text) : Plain (c :: text) := by
  constructor
  · rw [List.mem_cons, not_or]
    exact ⟨escapes.symm, plain.1⟩
  · rw [List.mem_cons, not_or]
    exact ⟨introduces.symm, plain.2⟩

/-- A plain beginning is kept. -/
theorem stripFrom_plain_append {text : List Char} (plain : Plain text) (rest : List Char) :
    stripFrom .plain (text ++ rest) = text ++ stripFrom .plain rest := by
  induction text with
  | nil => rfl
  | cons c text ih =>
    obtain ⟨escapes, introduces⟩ := plain
    rw [List.mem_cons, not_or] at escapes introduces
    have kept : step .plain c = (.plain, true) := by
      rw [step, plainStep, if_neg (Ne.symm escapes.1), if_neg (Ne.symm introduces.1)]
    rw [List.cons_append, stripFrom, kept]
    exact congrArg (c :: ·) (ih ⟨escapes.2, introduces.2⟩)

theorem strip_of_plain {text : List Char} (plain : Plain text) : strip text = text := by
  have kept := stripFrom_plain_append plain []
  rwa [List.append_nil, stripFrom, List.append_nil] at kept

/-! ### Complete sequences -/

/-- The two characters that end every string. -/
def terminator : List Char := [esc, '\\']

/-- The sequences that are complete. -/
inductive Complete : List Char → Prop
  | control {opening parameters : List Char} {final : Char}
    (opens : opening = [esc, '['] ∨ opening = [introducer])
    (within : ∀ c ∈ parameters, 0x20 ≤ c.toNat ∧ c.toNat ≤ 0x3f)
    (ends : 0x40 ≤ final.toNat ∧ final.toNat ≤ 0x7e) :
    Complete (opening ++ (parameters ++ [final]))
  | command {text ending : List Char} (silent : bell ∉ text) (unended : ¬ terminator <:+: text)
    (ends : ending = [bell] ∨ ending = terminator) :
    Complete ([esc, ']'] ++ (text ++ ending))
  | string {kind : Char} {text : List Char} (opens : kind ∈ ['P', '^', '_', 'X'])
    (unended : ¬ terminator <:+: text) : Complete ([esc, kind] ++ (text ++ terminator))
  | designation {kind : Char} (opens : kind ∈ ['(', ')', '*', '+', '#', ' ']) (argument : Char) :
    Complete [esc, kind, argument]
  | pair {final : Char} (ends : 0x30 ≤ final.toNat ∧ final.toNat ≤ 0x7e)
    (other : final ∉ ['[', ']', 'P', '^', '_', 'X']) : Complete [esc, final]

variable {mode next : Mode} {c : Char} {rest text : List Char}

theorem stripFrom_skip (skips : step mode c = (next, false)) (rest : List Char) :
    stripFrom mode (c :: rest) = stripFrom next rest := by
  rw [stripFrom, skips]

private theorem stripFrom_esc (rest : List Char) :
    stripFrom .plain (esc :: rest) = stripFrom .escaped rest :=
  stripFrom_skip rfl rest

/-- The rest of a control sequence is read up to its final character. -/
private theorem stripFrom_control {parameters : List Char} {final : Char}
    (within : ∀ c ∈ parameters, 0x20 ≤ c.toNat ∧ c.toNat ≤ 0x3f)
    (ends : 0x40 ≤ final.toNat ∧ final.toNat ≤ 0x7e) (rest : List Char) :
    stripFrom .control (parameters ++ final :: rest) = stripFrom .plain rest := by
  induction parameters with
  | nil =>
    have after : isParameter final = false := by
      simp only [isParameter, Bool.and_eq_false_iff, decide_eq_false_iff_not]
      omega
    have last : isFinal final = true := by simp [isFinal, ends]
    exact stripFrom_skip (by simp [step, after, last]) rest
  | cons c parameters ih =>
    have inner : isParameter c = true := by simp [isParameter, within c List.mem_cons_self]
    have skips : step .control c = (.control, false) := by simp [step, inner]
    rw [List.cons_append, stripFrom_skip skips]
    exact ih fun d mem => within d (List.mem_cons_of_mem _ mem)

/-- What ends a string: the terminator, and a bell if the string is a command. -/
def Ends (command : Bool) (ending : List Char) : Prop :=
  ending = terminator ∨ command = true ∧ ending = [bell]

/-- A string is read up to its end, also where an escape character before it was read already. -/
private theorem stripFrom_string {command : Bool} {ending : List Char} (ends : Ends command ending)
    (text rest : List Char) (silent : command = true → bell ∉ text) :
    (¬ terminator <:+: text →
      stripFrom (.string command) (text ++ (ending ++ rest)) = stripFrom .plain rest) ∧
    (¬ terminator <:+: esc :: text →
      stripFrom (.stringEscaped command) (text ++ (ending ++ rest)) = stripFrom .plain rest) := by
  induction text with
  | nil =>
    rcases ends with rfl | ⟨rfl, rfl⟩
    · exact ⟨fun _ => by cases command <;> rfl, fun _ => by cases command <;> rfl⟩
    · exact ⟨fun _ => rfl, fun _ => rfl⟩
  | cons c text ih =>
    have quiet : (command && c = bell) = false := by
      cases command with
      | false => rfl
      | true => simpa using fun same : c = bell => silent rfl (same ▸ List.mem_cons_self)
    obtain ⟨inside, behind⟩ := ih fun on mem => silent on (List.mem_cons_of_mem _ mem)
    -- The two modes differ only in what a backslash does.
    have goes : ¬ terminator <:+: c :: text → ∃ mode, stringStep command c = (mode, false) ∧
        stripFrom mode (text ++ (ending ++ rest)) = stripFrom .plain rest := by
      intro unended
      by_cases escapes : c = esc
      · refine ⟨.stringEscaped command, ?_, behind (escapes ▸ unended)⟩
        rw [stringStep, if_neg (by simp [quiet]), if_pos escapes]
      · refine ⟨.string command, ?_, inside fun found => unended (List.infix_cons found)⟩
        rw [stringStep, if_neg (by simp [quiet]), if_neg escapes]
    refine ⟨fun unended => ?_, fun unended => ?_⟩
    · obtain ⟨mode, stepped, passed⟩ := goes unended
      have skips : step (.string command) c = (mode, false) := stepped
      rw [List.cons_append, stripFrom_skip skips, passed]
    · obtain ⟨mode, stepped, passed⟩ := goes fun found => unended (List.infix_cons found)
      have other : c ≠ '\\' := by
        rintro rfl
        exact unended (List.prefix_append terminator text).isInfix
      have skips : step (.stringEscaped command) c = (mode, false) := by
        rw [step, if_neg other, stepped]
      rw [List.cons_append, stripFrom_skip skips, passed]

/-- A complete sequence is skipped. -/
private theorem Complete.skipped {sequence : List Char} (complete : Complete sequence)
    (rest : List Char) : stripFrom .plain (sequence ++ rest) = stripFrom .plain rest := by
  cases complete with
  | control opens within ends =>
    have passed := stripFrom_control within ends rest
    rcases opens with rfl | rfl <;>
      · simp only [List.append_assoc, List.cons_append, List.nil_append]
        exact passed
  | command silent unended ends =>
    rename_i text ending
    have closes : Ends true ending := ends.symm.imp_right fun ring => ⟨rfl, ring⟩
    have passed := (stripFrom_string closes text rest fun _ => silent).1 unended
    simp only [List.append_assoc, List.cons_append, List.nil_append]
    exact passed
  | string opens unended =>
    rename_i kind text
    have closes : Ends false terminator := .inl rfl
    have passed := (stripFrom_string closes text rest (by simp)).1 unended
    have opened : step .escaped kind = (.string false, false) := by
      simp only [List.mem_cons, List.not_mem_nil, or_false] at opens
      rcases opens with rfl | rfl | rfl | rfl <;> rfl
    simp only [List.append_assoc, List.cons_append, List.nil_append]
    rw [stripFrom_esc, stripFrom_skip opened, passed]
  | designation opens argument =>
    rename_i kind
    have opened : step .escaped kind = (.argument, false) := by
      simp only [List.mem_cons, List.not_mem_nil, or_false] at opens
      rcases opens with rfl | rfl | rfl | rfl | rfl | rfl <;> rfl
    simp only [List.cons_append, List.nil_append]
    rw [stripFrom_esc, stripFrom_skip opened]
    exact stripFrom_skip rfl rest
  | pair ends other =>
    rename_i final
    have closed : step .escaped final = (.plain, false) := by
      simp only [List.mem_cons, List.not_mem_nil, or_false, not_or] at other
      have ending : isPairEnd final = true := by simp [isPairEnd, ends]
      -- The characters that take an argument all come before those that end a pair.
      have alone : takesArgument final = false := by
        rw [Bool.eq_false_iff]
        intro takes
        simp only [takesArgument, Bool.or_eq_true, decide_eq_true_eq] at takes
        rcases takes with ((((rfl | rfl) | rfl) | rfl) | rfl) | rfl <;>
          exact absurd ends (by decide)
      simp [step, opensString, other, alone, ending]
    simp only [List.cons_append, List.nil_append]
    rw [stripFrom_esc, stripFrom_skip closed]

/-! ### Texts with sequences in them -/

/-- A stretch of plain text or a complete sequence. -/
inductive Segment where
  | text (chars : List Char) (plain : Plain chars)
  | sequence (chars : List Char) (complete : Complete chars)

def Segment.chars : Segment → List Char
  | .text chars _ => chars
  | .sequence chars _ => chars

/-- What is to be left of a segment. -/
def Segment.kept : Segment → List Char
  | .text chars _ => chars
  | .sequence _ _ => []

/-- Of segments one after the other the stretches of text are left. -/
private theorem strip_segments (segments : List Segment) :
    strip (segments.flatMap Segment.chars) = segments.flatMap Segment.kept := by
  induction segments with
  | nil => rfl
  | cons segment segments ih =>
    rw [List.flatMap_cons, List.flatMap_cons, ← ih]
    cases segment with
    | text chars plain => exact stripFrom_plain_append plain _
    | sequence chars complete => exact complete.skipped _

private theorem plain_kept (segments : List Segment) : Plain (segments.flatMap Segment.kept) := by
  induction segments with
  | nil => exact ⟨List.not_mem_nil, List.not_mem_nil⟩
  | cons segment segments ih =>
    rw [List.flatMap_cons]
    cases segment with
    | text chars plain => exact plain.append ih
    | sequence chars complete => exact ih

/-! ### Any text -/

/-- A character that is not skipped is read as one of ordinary text. -/
private theorem step_cases (mode : Mode) (c : Char) :
    (step mode c).2 = false ∨ step mode c = plainStep c := by
  have string : ∀ command, (stringStep command c).2 = false := by
    intro command
    unfold stringStep
    split_ifs <;> rfl
  cases mode with
  | plain => exact .inr rfl
  | escaped =>
    simp only [step]
    split_ifs <;> simp
  | control =>
    simp only [step]
    split_ifs <;> simp
  | string command => exact .inl (string command)
  | stringEscaped command =>
    simp only [step]
    split_ifs
    · exact .inl rfl
    · exact .inl (string command)
  | argument => exact .inl rfl

private theorem step_kept (keeps : step mode c = (next, true)) : c ≠ esc ∧ c ≠ introducer := by
  rcases step_cases mode c with skips | plain
  · rw [keeps] at skips
    cases skips
  · rw [plain] at keeps
    unfold plainStep at keeps
    split at keeps
    · cases keeps
    · split at keeps
      · cases keeps
      · exact ⟨‹_›, ‹_›⟩

/-- What is left of a text is a subsequence of it in which no sequence opens. -/
private theorem stripFrom_spec (mode : Mode) (text : List Char) :
    Plain (stripFrom mode text) ∧ (stripFrom mode text).Sublist text := by
  induction text generalizing mode with
  | nil => exact ⟨⟨List.not_mem_nil, List.not_mem_nil⟩, List.Sublist.refl _⟩
  | cons c text ih =>
    rw [stripFrom]
    split
    · rename_i next keeps
      obtain ⟨escapes, introduces⟩ := step_kept keeps
      exact ⟨(ih next).1.cons escapes introduces, (ih next).2.cons_cons c⟩
    · rename_i next _
      exact ⟨(ih next).1, (ih next).2.cons c⟩

/-- Exactly the complete sequences are taken out of plain text with such sequences in it, and a
report reads the same without them.  Of any text a subsequence is left in which no sequence opens,
and nothing more is taken out of that. -/
theorem strip_removes_sequences :
    (∀ segments : List Segment,
      strip (segments.flatMap Segment.chars) = segments.flatMap Segment.kept ∧
      ∀ g : Grammar, Report.parse g (String.ofList (segments.flatMap Segment.chars)) =
        Report.parse g (String.ofList (segments.flatMap Segment.kept))) ∧
    ∀ text : List Char, esc ∉ strip text ∧ introducer ∉ strip text ∧ (strip text).Sublist text ∧
      strip (strip text) = strip text := by
  refine ⟨fun segments => ?_, fun text => ?_⟩
  · have stripped := strip_segments segments
    refine ⟨stripped, fun g => ?_⟩
    rw [Report.parse, Report.parse, String.toList_ofList, String.toList_ofList, stripped,
      strip_of_plain (plain_kept segments)]
  · obtain ⟨plain, sublist⟩ := stripFrom_spec .plain text
    exact ⟨plain.1, plain.2, sublist, strip_of_plain plain⟩

end ModBench.Terminal
