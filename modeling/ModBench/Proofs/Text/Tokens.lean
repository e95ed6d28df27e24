import Mathlib.Data.List.DropRight
import ModBench.Text.Blank
import ModBench.Text.Numeral

/-!
Trimmed texts and numerals, said without their readers.
-/

set_option autoImplicit false
set_option relaxedAutoImplicit false

namespace ModBench.Text

/-! ### Trimming -/

private theorem dropTrailing_append_singleton (p : Char → Bool) (text : List Char) (c : Char) :
    dropTrailing p (text ++ [c]) = if p c then dropTrailing p text else text ++ [c] := by
  induction text with
  | nil => simp [dropTrailing]
  | cons d text ih =>
    rw [List.cons_append, dropTrailing, ih]
    by_cases dropped : p c = true
    · rw [if_pos dropped, if_pos dropped, dropTrailing]
    · rw [if_neg dropped, if_neg dropped]
      cases text <;> rfl

/-- The recursion from the left drops what a loop from the right drops. -/
theorem dropTrailing_eq_rdropWhile (p : Char → Bool) (text : List Char) :
    dropTrailing p text = text.rdropWhile p := by
  induction text using List.reverseRecOn with
  | nil => rfl
  | append_singleton text c ih =>
    rw [dropTrailing_append_singleton, List.rdropWhile_concat, ih]

theorem trim_eq_rdropWhile (text : List Char) :
    trim text = (text.dropWhile isBlank).rdropWhile isBlank :=
  dropTrailing_eq_rdropWhile _ _

/-- The middle is what stands between the blanks at the two ends of the text. -/
def IsTrimmed (text middle : List Char) : Prop :=
  ∃ front back, text = front ++ (middle ++ back) ∧ (∀ c ∈ front, isBlank c = true) ∧
    (∀ c ∈ back, isBlank c = true) ∧ (∀ c ∈ middle.head?, isBlank c = false) ∧
    ∀ c ∈ middle.getLast?, isBlank c = false

theorem dropWhile_append_of_head {p : Char → Bool} {front back : List Char}
    (dropped : ∀ c ∈ front, p c = true) (kept : ∀ c ∈ back.head?, p c = false) :
    (front ++ back).dropWhile p = back := by
  rw [List.dropWhile_append_of_pos dropped]
  cases back with
  | nil => rfl
  | cons c back => exact List.dropWhile_cons_of_neg (by simp [kept c rfl])

/-- What a class drops at the beginning of a text, and the rest, which begins with another
character. -/
theorem exists_dropWhile (p : Char → Bool) (text : List Char) :
    ∃ front, text = front ++ text.dropWhile p ∧ (∀ c ∈ front, p c = true) ∧
      ∀ c ∈ (text.dropWhile p).head?, p c = false := by
  refine ⟨text.takeWhile p, List.takeWhile_append_dropWhile.symm,
    fun c mem => List.mem_takeWhile_imp mem, fun c first => ?_⟩
  have opens := List.head?_dropWhile_not p text
  rw [Option.mem_def.1 first] at opens
  exact opens

theorem trim_eq_iff {text middle : List Char} : trim text = middle ↔ IsTrimmed text middle := by
  rw [trim_eq_rdropWhile]
  constructor
  · rintro rfl
    obtain ⟨front, eq, front_blank, opens⟩ := exists_dropWhile isBlank text
    obtain ⟨back, eq', back_blank, ends⟩ :=
      exists_dropWhile isBlank (text.dropWhile isBlank).reverse
    have whole : text.dropWhile isBlank =
        (text.dropWhile isBlank).rdropWhile isBlank ++ back.reverse := by
      rw [List.rdropWhile, ← List.reverse_append, ← eq', List.reverse_reverse]
    refine ⟨front, back.reverse, by rw [← whole, ← eq], front_blank, ?_, ?_, ?_⟩
    · exact fun c mem => back_blank c (List.mem_reverse.1 mem)
    · intro c first
      refine opens c ?_
      rw [whole, List.head?_append, Option.mem_def.1 first]
      rfl
    · rwa [List.rdropWhile, List.getLast?_reverse]
  · rintro ⟨front, back, rfl, front_blank, back_blank, opens, ends⟩
    cases middle with
    | nil =>
      have all : ∀ c ∈ front ++ back, isBlank c = true := by
        intro c mem
        exact (List.mem_append.1 mem).elim (front_blank c) (back_blank c)
      rw [List.nil_append, List.dropWhile_eq_nil_iff.2 all, List.rdropWhile_nil]
    | cons c middle =>
      have opens' : ∀ d ∈ (c :: middle ++ back).head?, isBlank d = false := opens
      rw [dropWhile_append_of_head front_blank opens', List.rdropWhile, List.reverse_append,
        dropWhile_append_of_head fun d mem => back_blank d (List.mem_reverse.1 mem),
        List.reverse_reverse]
      rwa [List.head?_reverse]

/-! ### Numerals -/

def IsDigit (c : Char) : Prop := '0' ≤ c ∧ c ≤ '9'

instance (c : Char) : Decidable (IsDigit c) :=
  inferInstanceAs (Decidable ('0' ≤ c ∧ c ≤ '9'))

/-- The value of decimal digits, the first of them counting most. -/
def decimal (digits : List Char) : Nat :=
  digits.foldl (fun value c => 10 * value + (c.toNat - '0'.toNat)) 0

/-- The text is one or more digits, perhaps after a plus sign, and has the value given. -/
def IsNumeral (text : List Char) (value : Nat) : Prop :=
  ∃ sign digits, (sign = [] ∨ sign = ['+']) ∧ digits ≠ [] ∧ (∀ c ∈ digits, IsDigit c) ∧
    text = sign ++ digits ∧ decimal digits = value

private theorem digit?_eq_some_iff {c : Char} {d : Nat} :
    digit? c = some d ↔ IsDigit c ∧ c.toNat - '0'.toNat = d := by
  unfold digit? IsDigit
  split
  · rename_i digit
    simp [digit]
  · rename_i other
    simp [other]

private theorem digitsFrom_eq_some_iff {digits : List Char} {acc value : Nat} :
    digitsFrom acc digits = some value ↔ (∀ c ∈ digits, IsDigit c) ∧
      digits.foldl (fun value c => 10 * value + (c.toNat - '0'.toNat)) acc = value := by
  induction digits generalizing acc with
  | nil => simp [digitsFrom]
  | cons c digits ih =>
    rw [digitsFrom]
    cases read : digit? c with
    | none =>
      have other : ¬ IsDigit c := by
        intro digit
        have := digit?_eq_some_iff.2 ⟨digit, rfl⟩
        rw [read] at this
        cases this
      simp [other]
    | some d =>
      obtain ⟨digit, rfl⟩ := digit?_eq_some_iff.1 read
      simp only [ih, List.forall_mem_cons, digit, true_and, List.foldl_cons]

private theorem digits?_eq_some_iff {digits : List Char} {value : Nat} :
    digits? digits = some value ↔
      digits ≠ [] ∧ (∀ c ∈ digits, IsDigit c) ∧ decimal digits = value := by
  cases digits with
  | nil => simp [digits?]
  | cons c digits => simp only [digits?, digitsFrom_eq_some_iff, decimal, ne_eq, reduceCtorEq,
      not_false_eq_true, true_and]

theorem numeral?_eq_some_iff {text : List Char} {value : Nat} :
    numeral? text = some value ↔ IsNumeral text value := by
  constructor
  · intro read
    unfold numeral? at read
    split at read
    · rename_i digits
      obtain ⟨some_digit, all, eq⟩ := digits?_eq_some_iff.1 read
      exact ⟨['+'], digits, Or.inr rfl, some_digit, all, rfl, eq⟩
    · obtain ⟨some_digit, all, eq⟩ := digits?_eq_some_iff.1 read
      exact ⟨[], text, Or.inl rfl, some_digit, all, rfl, eq⟩
  · rintro ⟨sign, digits, rfl | rfl, some_digit, all, rfl, eq⟩
    · have read := digits?_eq_some_iff.2 ⟨some_digit, all, eq⟩
      unfold numeral?
      split
      · -- A plus sign is no digit.
        have plus := all '+' List.mem_cons_self
        exact absurd plus.1 (by decide)
      · exact read
    · exact digits?_eq_some_iff.2 ⟨some_digit, all, eq⟩

/-- The numerals of 32 bits are those whose value fits. -/
theorem numeral32?_eq_some_iff {text : List Char} {value : UInt32} :
    numeral32? text = some value ↔ IsNumeral text value.toNat := by
  unfold numeral32?
  constructor
  · intro read
    split at read
    · rename_i n found
      split at read
      · rename_i fits
        cases read
        rw [UInt32.toNat_ofNat_of_lt' fits]
        exact numeral?_eq_some_iff.1 found
      · cases read
    · cases read
  · intro numeral
    simp only [numeral?_eq_some_iff.2 numeral, if_pos value.toNat_lt, UInt32.ofNat_toNat]

theorem toList_toString (n : Nat) : (toString n).toList = Nat.toDigits 10 n := by
  rw [Nat.toString_eq_ofList_toDigits, String.toList_ofList]

theorem isDigit_of_mem_toString {n : Nat} {c : Char} (mem : c ∈ (toString n).toList) :
    IsDigit c := by
  rw [toList_toString] at mem
  have digit := Nat.isDigit_of_mem_toDigits (by decide) (by decide) mem
  rw [Char.isDigit, Bool.and_eq_true, decide_eq_true_eq, decide_eq_true_eq] at digit
  exact digit

/-- A number is written as a numeral of its value. -/
theorem isNumeral_toString (n : Nat) : IsNumeral (toString n).toList n := by
  refine ⟨[], (toString n).toList, .inl rfl, ?_, fun c => isDigit_of_mem_toString, rfl, ?_⟩
  · rw [toList_toString]
    exact Nat.toDigits_ne_nil
  · rw [toList_toString, decimal, ← Nat.ofDigitChars_eq_foldl]
    exact Nat.ofDigitChars_toDigits (by decide) (by decide)

end ModBench.Text
