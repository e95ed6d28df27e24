import Mathlib.Tactic.SplitIfs
import ModBench.Text.Utf8

/-!
Text as bytes and back.  What was written is read back as it was, and bytes that are read without a
fault are those that are written for what was read; so `decode?` and `encodeString` are inverse to
each other, and `decodeLossy` changes nothing about bytes that are text.  Whatever else it reads, it
shows none of the first 128 characters but where the byte stands for it.
-/

set_option autoImplicit false
set_option relaxedAutoImplicit false

namespace ModBench.Text

private theorem toNat_byte {n : Nat} (small : n < 256) : (UInt8.ofNat n).toNat = n := by
  rw [UInt8.toNat_ofNat', Nat.mod_eq_of_lt small]

private theorem toNat_lt (c : Char) : c.toNat < 0x110000 := by
  rcases c.valid with h | ⟨_, h⟩
  · exact Nat.lt_trans h (by decide)
  · exact h

variable {b : UInt8} {rest : List UInt8} {c : Begun}

theorem readBehind_ascii (small : b.toNat < 0x80) :
    readBehind none (b :: rest) = some (Char.ofNat b.toNat) :: readBehind none rest := by
  rw [readBehind, readFirst, if_pos small]

theorem readBehind_lead (large : ¬ b.toNat < 0x80) (lead : Begun.ofLead? b.toNat = some c) :
    readBehind none (b :: rest) = readBehind (some c) rest := by
  rw [readBehind, readFirst, if_neg large, lead]

private theorem readBehind_last (takes : c.takes b.toNat = true) (last : c.owed = 0) :
    readBehind (some c) (b :: rest) =
      some (Char.ofNat (c.extended b.toNat)) :: readBehind none rest := by
  rw [readBehind, if_pos takes, last]

private theorem readBehind_more {owed : Nat} (takes : c.takes b.toNat = true)
    (more : c.owed = owed + 1) :
    readBehind (some c) (b :: rest) =
      readBehind (some { value := c.extended b.toNat, owed := owed }) rest := by
  rw [readBehind, if_pos takes, more]

/-- A character that was written is read back, whatever follows it. -/
private theorem readBehind_encodeChar (c : Char) (rest : List UInt8) :
    readBehind none (encodeChar c ++ rest) = some c :: readBehind none rest := by
  have bound := toNat_lt c
  have valid : c.toNat.isValidChar := c.valid
  have whole : Char.ofNat c.toNat = c := Char.ofNat_toNat c
  unfold encodeChar Nat.isValidChar at *
  dsimp only
  generalize c.toNat = n at *
  split_ifs with one two three
  · rw [List.cons_append, List.nil_append, readBehind_ascii (by rwa [toNat_byte (by omega)]),
      toNat_byte (by omega), whole]
  · have lead : Begun.ofLead? (UInt8.ofNat (0xc0 + n / 64)).toNat =
        some { value := (0xc0 + n / 64) % 32, owed := 0 } := by
      rw [toNat_byte (by omega), Begun.ofLead?, if_pos (by omega)]
    rw [List.cons_append, List.cons_append, List.nil_append,
      readBehind_lead (by rw [toNat_byte (by omega)]; omega) lead,
      readBehind_last (by simp [Begun.takes]; omega) rfl, Begun.extended, toNat_byte (by omega)]
    dsimp only
    rw [show (0xc0 + n / 64) % 32 * 64 + (0x80 + n % 64) % 64 = n by omega, whole]
  · have lead : Begun.ofLead? (UInt8.ofNat (0xe0 + n / 4096)).toNat =
        some { value := (0xe0 + n / 4096) % 16, owed := 1,
               low := if 0xe0 + n / 4096 = 0xe0 then 0xa0 else 0x80,
               high := if 0xe0 + n / 4096 = 0xed then 0x9f else 0xbf } := by
      rw [toNat_byte (by omega), Begun.ofLead?, if_neg (by omega), if_pos (by omega)]
    rw [List.cons_append, List.cons_append, List.cons_append, List.nil_append,
      readBehind_lead (by rw [toNat_byte (by omega)]; omega) lead,
      readBehind_more (by rw [toNat_byte (by omega)]; simp [Begun.takes]; split_ifs <;> omega) rfl,
      readBehind_last (by simp [Begun.takes]; omega) rfl, Begun.extended, Begun.extended,
      toNat_byte (by omega), toNat_byte (by omega)]
    dsimp only
    rw [show ((0xe0 + n / 4096) % 16 * 64 + (0x80 + n / 64 % 64) % 64) * 64 +
      (0x80 + n % 64) % 64 = n by omega, whole]
  · have lead : Begun.ofLead? (UInt8.ofNat (0xf0 + n / 262144)).toNat =
        some { value := (0xf0 + n / 262144) % 8, owed := 2,
               low := if 0xf0 + n / 262144 = 0xf0 then 0x90 else 0x80,
               high := if 0xf0 + n / 262144 = 0xf4 then 0x8f else 0xbf } := by
      rw [toNat_byte (by omega), Begun.ofLead?, if_neg (by omega), if_neg (by omega),
        if_pos (by omega)]
    rw [List.cons_append, List.cons_append, List.cons_append, List.cons_append, List.nil_append,
      readBehind_lead (by rw [toNat_byte (by omega)]; omega) lead,
      readBehind_more (by rw [toNat_byte (by omega)]; simp [Begun.takes]; split_ifs <;> omega) rfl,
      readBehind_more (by simp [Begun.takes]; omega) rfl,
      readBehind_last (by simp [Begun.takes]; omega) rfl, Begun.extended, Begun.extended,
      Begun.extended, toNat_byte (by omega), toNat_byte (by omega), toNat_byte (by omega)]
    dsimp only
    rw [show (((0xf0 + n / 262144) % 8 * 64 + (0x80 + n / 4096 % 64) % 64) * 64 +
      (0x80 + n / 64 % 64) % 64) * 64 + (0x80 + n % 64) % 64 = n by omega, whole]

theorem readChars_encode (text : List Char) : readChars (encode text) = text.map some := by
  induction text with
  | nil => rfl
  | cons c text ih =>
    rw [readChars] at ih ⊢
    rw [encode, List.flatMap_cons, readBehind_encodeChar, ← encode, ih, List.map_cons]

/-- Behind the beginning of a character that is read, one byte more of it stands. -/
private theorem readBehind_begun {bytes : List UInt8} {text : List Char}
    (read : readBehind (some c) bytes = text.map some) :
    ∃ b rest, bytes = b :: rest ∧ c.low ≤ b.toNat ∧ b.toNat ≤ c.high ∧
      match c.owed with
      | 0 => ∃ more, text = Char.ofNat (c.extended b.toNat) :: more ∧
          readBehind none rest = more.map some
      | owed + 1 =>
        readBehind (some { value := c.extended b.toNat, owed := owed }) rest = text.map some := by
  obtain ⟨value, owed, low, high⟩ := c
  cases bytes with
  | nil => cases text <;> simp [readBehind] at read
  | cons b rest =>
    rw [readBehind] at read
    split at read
    · rename_i takes
      simp only [Begun.takes, Bool.and_eq_true, decide_eq_true_eq] at takes
      refine ⟨b, rest, rfl, takes.1, takes.2, ?_⟩
      cases owed with
      | zero =>
        cases text with
        | nil => cases read
        | cons d more =>
          obtain ⟨first, behind⟩ := List.cons.inj read
          exact ⟨more, by rw [Option.some.inj first], behind⟩
      | succ owed => exact read
    · cases text <;> simp at read

theorem toNat_ofNat {n : Nat} (valid : n.isValidChar) : (Char.ofNat n).toNat = n := by
  rw [Char.ofNat, dif_pos valid]
  rfl

theorem eq_ofNat {b : UInt8} {n : Nat} (h : n = b.toNat) : UInt8.ofNat n = b := by
  rw [h, UInt8.ofNat_toNat]

/-- The character of two bytes is written as these. -/
private theorem encodeChar_two {a b : UInt8} (lead : 0xc2 ≤ a.toNat ∧ a.toNat ≤ 0xdf)
    (tail : 0x80 ≤ b.toNat ∧ b.toNat ≤ 0xbf) :
    encodeChar (Char.ofNat (a.toNat % 32 * 64 + b.toNat % 64)) = [a, b] := by
  rw [encodeChar, toNat_ofNat (Or.inl (by omega)), if_neg (by omega), if_pos (by omega),
    eq_ofNat (b := a) (by omega), eq_ofNat (b := b) (by omega)]

private theorem encodeChar_three {a b c : UInt8} (lead : 0xe0 ≤ a.toNat ∧ a.toNat ≤ 0xef)
    (first : (if a.toNat = 0xe0 then 0xa0 else 0x80) ≤ b.toNat ∧
      b.toNat ≤ if a.toNat = 0xed then 0x9f else 0xbf)
    (tail : 0x80 ≤ c.toNat ∧ c.toNat ≤ 0xbf) :
    encodeChar (Char.ofNat ((a.toNat % 16 * 64 + b.toNat % 64) * 64 + c.toNat % 64)) =
      [a, b, c] := by
  have valid : ((a.toNat % 16 * 64 + b.toNat % 64) * 64 + c.toNat % 64).isValidChar := by
    unfold Nat.isValidChar
    split_ifs at first <;> omega
  rw [encodeChar, toNat_ofNat valid, if_neg (by split_ifs at first <;> omega),
    if_neg (by split_ifs at first <;> omega), if_pos (by omega),
    eq_ofNat (b := a) (by split_ifs at first <;> omega),
    eq_ofNat (b := b) (by split_ifs at first <;> omega), eq_ofNat (b := c) (by omega)]

private theorem encodeChar_four {a b c d : UInt8} (lead : 0xf0 ≤ a.toNat ∧ a.toNat ≤ 0xf4)
    (first : (if a.toNat = 0xf0 then 0x90 else 0x80) ≤ b.toNat ∧
      b.toNat ≤ if a.toNat = 0xf4 then 0x8f else 0xbf)
    (second : 0x80 ≤ c.toNat ∧ c.toNat ≤ 0xbf) (tail : 0x80 ≤ d.toNat ∧ d.toNat ≤ 0xbf) :
    encodeChar (Char.ofNat (((a.toNat % 8 * 64 + b.toNat % 64) * 64 + c.toNat % 64) * 64 +
      d.toNat % 64)) = [a, b, c, d] := by
  have valid : (((a.toNat % 8 * 64 + b.toNat % 64) * 64 + c.toNat % 64) * 64 +
      d.toNat % 64).isValidChar := by
    unfold Nat.isValidChar
    split_ifs at first <;> omega
  rw [encodeChar, toNat_ofNat valid, if_neg (by split_ifs at first <;> omega),
    if_neg (by split_ifs at first <;> omega), if_neg (by split_ifs at first <;> omega),
    eq_ofNat (b := a) (by split_ifs at first <;> omega),
    eq_ofNat (b := b) (by split_ifs at first <;> omega),
    eq_ofNat (b := c) (by split_ifs at first <;> omega), eq_ofNat (b := d) (by omega)]

/-- What a byte begins that is not a character by itself: one of two, of three or of four bytes. -/
private theorem ofLead?_cases {n : Nat} (lead : Begun.ofLead? n = some c) :
    (0xc2 ≤ n ∧ n ≤ 0xdf) ∧ c = { value := n % 32, owed := 0 } ∨
    (0xe0 ≤ n ∧ n ≤ 0xef) ∧
      c = { value := n % 16, owed := 1, low := if n = 0xe0 then 0xa0 else 0x80,
            high := if n = 0xed then 0x9f else 0xbf } ∨
    (0xf0 ≤ n ∧ n ≤ 0xf4) ∧
      c = { value := n % 8, owed := 2, low := if n = 0xf0 then 0x90 else 0x80,
            high := if n = 0xf4 then 0x8f else 0xbf } := by
  unfold Begun.ofLead? at lead
  split at lead
  · exact .inl ⟨‹_›, (Option.some.inj lead).symm⟩
  · split at lead
    · exact .inr (.inl ⟨‹_›, (Option.some.inj lead).symm⟩)
    · split at lead
      · exact .inr (.inr ⟨‹_›, (Option.some.inj lead).symm⟩)
      · cases lead

/-- Bytes that are read without a fault are those that are written for what was read. -/
private theorem eq_encode_of_readBehind {bytes : List UInt8} {text : List Char}
    (read : readBehind none bytes = text.map some) : bytes = encode text := by
  induction size : bytes.length using Nat.strongRecOn generalizing bytes text with
  | _ n ih =>
  cases bytes with
  | nil =>
    cases text with
    | nil => rfl
    | cons c text => cases read
  | cons a rest =>
    have later : ∀ {rest' : List UInt8} {more : List Char}, rest'.length < n →
        readBehind none rest' = more.map some → rest' = encode more :=
      fun shorter read => ih _ shorter read rfl
    by_cases small : a.toNat < 0x80
    · rw [readBehind_ascii small] at read
      cases text with
      | nil => cases read
      | cons c text =>
        obtain ⟨first, behind⟩ := List.cons.inj read
        have value : c.toNat = a.toNat := by
          rw [← Option.some.inj first, toNat_ofNat (Or.inl (by omega))]
        have written : encodeChar c = [a] := by
          rw [encodeChar, value, if_pos small, UInt8.ofNat_toNat]
        rw [encode, List.flatMap_cons, written, ← encode,
          ← later (by rw [← size]; exact Nat.lt_succ_self _) behind]
        rfl
    · cases lead : Begun.ofLead? a.toNat with
      | none =>
        rw [readBehind, readFirst, if_neg small, lead] at read
        cases text <;> simp at read
      | some begun =>
        rw [readBehind_lead small lead] at read
        obtain ⟨b, rest, rfl, first⟩ := readBehind_begun read
        obtain ⟨two, rfl⟩ | ⟨three, rfl⟩ | ⟨four, rfl⟩ := ofLead?_cases lead
        · obtain ⟨low, high, more, rfl, behind⟩ := first
          rw [encode, List.flatMap_cons, Begun.extended, encodeChar_two two ⟨low, high⟩, ← encode,
            ← later (by rw [← size]; simp only [List.length_cons]; omega) behind]
          rfl
        · obtain ⟨low, high, first⟩ := first
          obtain ⟨c, rest, rfl, low', high', more, rfl, behind⟩ := readBehind_begun first
          rw [encode, List.flatMap_cons, Begun.extended, Begun.extended,
            encodeChar_three three ⟨low, high⟩ ⟨low', high'⟩, ← encode,
            ← later (by rw [← size]; simp only [List.length_cons]; omega) behind]
          rfl
        · obtain ⟨low, high, first⟩ := first
          obtain ⟨c, rest, rfl, low', high', second⟩ := readBehind_begun first
          obtain ⟨d, rest, rfl, low'', high'', more, rfl, behind⟩ := readBehind_begun second
          rw [encode, List.flatMap_cons, Begun.extended, Begun.extended, Begun.extended,
            encodeChar_four four ⟨low, high⟩ ⟨low', high'⟩ ⟨low'', high''⟩, ← encode,
            ← later (by rw [← size]; simp only [List.length_cons]; omega) behind]
          rfl

private theorem map_some_filterMap_id {α : Type} {xs : List (Option α)}
    (whole : xs.all Option.isSome) : (xs.filterMap id).map some = xs := by
  induction xs with
  | nil => rfl
  | cons x xs ih =>
    rw [List.all_cons, Bool.and_eq_true] at whole
    obtain ⟨v, rfl⟩ := Option.isSome_iff_exists.1 whole.1
    exact congrArg (some v :: ·) (ih whole.2)

theorem decode?_eq_some_iff {bytes : List UInt8} {s : String} :
    decode? bytes = some s ↔ bytes = encodeString s := by
  unfold decode?
  dsimp only
  constructor
  · intro read
    split at read
    · rename_i whole
      have chars : readBehind none bytes = ((readChars bytes).filterMap id).map some :=
        (map_some_filterMap_id whole).symm
      rw [eq_encode_of_readBehind chars, ← Option.some.inj read, encodeString, String.toList_ofList]
    · cases read
  · rintro rfl
    rw [encodeString, readChars_encode]
    simp

theorem decode?_encodeString (s : String) : decode? (encodeString s) = some s :=
  decode?_eq_some_iff.2 rfl

/-- Different texts are different bytes. -/
theorem encodeString_inj {s t : String} : encodeString s = encodeString t ↔ s = t := by
  constructor
  · intro same
    have read := decode?_encodeString s
    rw [same, decode?_encodeString] at read
    exact (Option.some.inj read).symm
  · exact congrArg _

theorem encodeString_append (s t : String) :
    encodeString (s ++ t) = encodeString s ++ encodeString t := by
  rw [encodeString, String.toList_append, encode, List.flatMap_append]
  rfl

theorem decodeLossy_encodeString (s : String) : decodeLossy (encodeString s) = s := by
  rw [decodeLossy, encodeString, readChars_encode, List.map_map]
  exact (congrArg String.ofList (List.map_id s.toList)).trans String.ofList_toList

/-! ### Bytes that are not text -/

/-- A character that is begun and will be none of the first 128, whatever byte comes next. -/
def Begun.IsWide (c : Begun) : Prop :=
  ∀ n, c.takes n = true → 2 ≤ c.extended n ∧ (c.owed = 0 → 0x80 ≤ c.extended n)

private theorem isWide_of_ofLead? {n : Nat} (lead : Begun.ofLead? n = some c) : c.IsWide := by
  intro m takes
  unfold Begun.ofLead? at lead
  split_ifs at lead <;> cases Option.some.inj lead <;>
    simp only [Begun.takes, Begun.extended, Bool.and_eq_true, decide_eq_true_eq] at takes ⊢ <;>
    omega

private theorem isWide_extended (wide : c.IsWide) {n : Nat} (takes : c.takes n = true)
    (owed : Nat) : Begun.IsWide { value := c.extended n, owed := owed } := by
  have large := (wide n takes).1
  intro m _
  rw [Begun.extended]
  dsimp only
  omega

/-- What is read at a byte is the byte itself, or a fault, or read behind it. -/
private theorem mem_readFirst {b : UInt8} {rest : Option Begun → List (Option Char)}
    {x : Option Char} (mem : x ∈ readFirst b rest) :
    (b.toNat < 0x80 ∧ x = some (Char.ofNat b.toNat)) ∨ x = none ∨
      ∃ begun, x ∈ rest begun ∧ ∀ c ∈ begun, c.IsWide := by
  unfold readFirst at mem
  split at mem
  · rename_i small
    rcases List.mem_cons.1 mem with rfl | mem
    · exact .inl ⟨small, rfl⟩
    · exact .inr (.inr ⟨none, mem, nofun⟩)
  · split at mem
    · rcases List.mem_cons.1 mem with rfl | mem
      · exact .inr (.inl rfl)
      · exact .inr (.inr ⟨none, mem, nofun⟩)
    · rename_i begun lead
      exact .inr (.inr ⟨some begun, mem, fun c same =>
        Option.some.inj same ▸ isWide_of_ofLead? lead⟩)

/-- A character among the first 128 is read only where its byte stands. -/
private theorem exists_mem_of_mem_readBehind {d : Char} (ascii : d.toNat < 0x80)
    (visible : d.toNat ≠ 0) {begun : Option Begun} (wide : ∀ c ∈ begun, c.IsWide)
    {bytes : List UInt8} (mem : some d ∈ readBehind begun bytes) :
    ∃ b ∈ bytes, b.toNat = d.toNat := by
  have later : ∀ {b : UInt8} {rest : List UInt8}, (∃ b ∈ rest, b.toNat = d.toNat) →
      ∃ b' ∈ b :: rest, b'.toNat = d.toNat := fun ⟨b, mem, same⟩ =>
    ⟨b, List.mem_cons_of_mem _ mem, same⟩
  have wide_ne : ∀ {n : Nat}, 0x80 ≤ n → d ≠ Char.ofNat n := by
    rintro n large rfl
    by_cases valid : n.isValidChar
    · rw [toNat_ofNat valid] at ascii
      omega
    · rw [Char.ofNat, dif_neg valid] at visible
      exact visible rfl
  induction bytes generalizing begun with
  | nil => cases begun <;> simp [readBehind] at mem
  | cons b rest ih =>
    have first : some d ∈ readFirst b (fun begun => readBehind begun rest) →
        ∃ b' ∈ b :: rest, b'.toNat = d.toNat := by
      intro mem
      rcases mem_readFirst mem with ⟨small, same⟩ | same | ⟨begun, mem, wide⟩
      · refine ⟨b, List.mem_cons_self, ?_⟩
        rw [Option.some.inj same, toNat_ofNat]
        exact Or.inl (by omega)
      · cases same
      · exact later (ih wide mem)
    cases begun with
    | none => exact first mem
    | some c =>
      rw [readBehind] at mem
      split at mem
      · rename_i takes
        have large := wide c rfl b.toNat takes
        split at mem
        · rename_i last
          rcases List.mem_cons.1 mem with same | mem
          · exact absurd (Option.some.inj same) (wide_ne (large.2 last))
          · exact later (ih (by simp) mem)
        · rename_i owed _
          refine later (ih ?_ mem)
          rintro _ ⟨⟩
          exact isWide_extended (wide c rfl) takes owed
      · rcases List.mem_cons.1 mem with same | mem
        · cases same
        · exact first mem

/-- Bytes among which a character's own byte is not are not shown with that character in them. -/
theorem not_mem_decodeLossy {c : Char} {b : UInt8} (byte : b.toNat = c.toNat)
    (ascii : c.toNat < 0x80) (visible : c.toNat ≠ 0) {bytes : List UInt8} (absent : b ∉ bytes) :
    c ∉ (decodeLossy bytes).toList := by
  intro mem
  rw [decodeLossy, String.toList_ofList] at mem
  obtain ⟨x, read, rfl⟩ := List.mem_map.1 mem
  cases x with
  | none => exact absurd ascii (by decide)
  | some d =>
    obtain ⟨other, among, same⟩ := exists_mem_of_mem_readBehind ascii visible (by simp) read
    exact absent (UInt8.toNat_inj.1 (byte.trans same.symm) ▸ among)

end ModBench.Text
