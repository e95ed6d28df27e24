import Mathlib.Data.List.Basic
import ModBench.Path

/-!
Extensions.  A path has the extension that stands behind the last dot of its last name, unless that
dot comes first; two extensions agree when they differ only in the case of ASCII letters.
-/

set_option autoImplicit false
set_option relaxedAutoImplicit false

namespace ModBench.Path

/-- The path ends in a name made of a stem, a dot and the extension. -/
def EndsIn (p : Path) (extension : List UInt8) : Prop :=
  ∃ stem, p.components.getLast? = some (.name (stem ++ dot :: extension)) ∧ stem ≠ [] ∧
    dot ∉ extension

/-- The two strings of bytes differ only in the case of ASCII letters. -/
def AgreeUpToCase (a b : List UInt8) : Prop :=
  a.map (fun b => (Char.ofUInt8 b).toLower) = b.map fun b => (Char.ofUInt8 b).toLower

/-! ### The last dot -/

/-- A name has no dot, or it is cut at the last one. -/
theorem cutLastDot_cases (name : List UInt8) :
    (cutLastDot name = none ∧ dot ∉ name) ∨
      ∃ before after, cutLastDot name = some (before, after) ∧ dot ∉ after ∧
        name = before ++ dot :: after := by
  induction name with
  | nil => exact .inl ⟨rfl, List.not_mem_nil⟩
  | cons c name ih =>
    rw [cutLastDot]
    rcases ih with ⟨uncut, undotted⟩ | ⟨before, after, cut, undotted, rfl⟩
    · rw [uncut]
      by_cases dotted : c = dot
      · exact .inr ⟨[], name, if_pos dotted, undotted, by rw [dotted]; rfl⟩
      · refine .inl ⟨if_neg dotted, ?_⟩
        rw [List.mem_cons, not_or]
        exact ⟨Ne.symm dotted, undotted⟩
    · exact .inr ⟨c :: before, after, by rw [cut], undotted, rfl⟩

private theorem cutLastDot_append {after : List UInt8} (undotted : dot ∉ after)
    (before : List UInt8) : cutLastDot (before ++ dot :: after) = some (before, after) := by
  induction before with
  | nil =>
    rcases cutLastDot_cases after with ⟨uncut, _⟩ | ⟨front, back, _, _, rfl⟩
    · rw [List.nil_append, cutLastDot, uncut]
      rfl
    · simp at undotted
  | cons c before ih => rw [List.cons_append, cutLastDot, ih]

private theorem extension?_eq_some_iff {p : Path} {extension : List UInt8} :
    p.extension? = some extension ↔ p.EndsIn extension := by
  unfold extension?
  constructor
  · intro read
    split at read
    · rename_i name last
      rw [fileName?_eq_some_iff] at last
      rcases cutLastDot_cases name with ⟨uncut, _⟩ | ⟨stem, after, cut, undotted, rfl⟩
      · rw [uncut] at read
        cases read
      · rw [cut] at read
        cases stem with
        | nil => cases read
        | cons b stem =>
          obtain rfl := Option.some.inj read
          exact ⟨b :: stem, last, List.cons_ne_nil b stem, undotted⟩
    · cases read
  · rintro ⟨stem, last, some_stem, undotted⟩
    obtain ⟨b, rest, rfl⟩ := List.exists_cons_of_ne_nil some_stem
    rw [fileName?_eq_some_iff.2 last]
    dsimp only
    rw [cutLastDot_append undotted]

/-! ### Case -/

private theorem toLower_ofUInt8 (b : UInt8) :
    (Char.ofUInt8 b).toLower = Char.ofUInt8 (lowerByte b) := by
  have value : (Char.ofUInt8 b).val = b.toUInt32 := rfl
  unfold lowerByte Char.toLower
  by_cases upper : 0x41 ≤ b ∧ b ≤ 0x5a
  · have small : b.toNat ≤ 0x5a := UInt8.le_iff_toNat_le.1 upper.2
    have bounds : (Char.ofUInt8 b).val ≥ 'A'.val ∧ (Char.ofUInt8 b).val ≤ 'Z'.val := by
      simpa [value, UInt32.le_iff_toNat_le, UInt8.le_iff_toNat_le] using upper
    rw [if_pos upper, dif_pos bounds]
    have sum : (b.toUInt32 + ('a'.val - 'A'.val)).toNat = (b + 0x20).toUInt32.toNat := by
      rw [UInt32.toNat_add, UInt8.toNat_toUInt32, UInt8.toNat_toUInt32, UInt8.toNat_add,
        show ('a'.val - 'A'.val).toNat = 0x20 from rfl, show (0x20 : UInt8).toNat = 0x20 from rfl]
      omega
    exact Char.ext (UInt32.toNat_inj.1 sum)
  · have bounds : ¬ ((Char.ofUInt8 b).val ≥ 'A'.val ∧ (Char.ofUInt8 b).val ≤ 'Z'.val) := by
      simpa [value, UInt32.le_iff_toNat_le, UInt8.le_iff_toNat_le] using upper
    rw [if_neg upper, dif_neg bounds]

private theorem ofUInt8_inj {a b : UInt8} : Char.ofUInt8 a = Char.ofUInt8 b ↔ a = b := by
  constructor
  · intro h
    have values : a.toUInt32 = b.toUInt32 := congrArg Char.val h
    have same : a.toNat = b.toNat := by
      rw [← UInt8.toNat_toUInt32, values, UInt8.toNat_toUInt32]
    exact UInt8.toNat_inj.1 same
  · exact congrArg _

private theorem agreeUpToCase_iff {a b : List UInt8} :
    agreeUpToCase a b = true ↔ AgreeUpToCase a b := by
  have lower : (fun b => (Char.ofUInt8 b).toLower) = Char.ofUInt8 ∘ lowerByte :=
    funext toLower_ofUInt8
  rw [agreeUpToCase, AgreeUpToCase, beq_iff_eq, lower, ← List.map_map, ← List.map_map,
    List.map_inj_right fun _ _ => ofUInt8_inj.1]

theorem hasExtension_iff {p : Path} {wanted : String} : p.hasExtension wanted = true ↔
    ∃ found, p.EndsIn found ∧ AgreeUpToCase found (Text.encodeString wanted) := by
  unfold hasExtension
  constructor
  · intro has
    split at has
    · rename_i found read
      exact ⟨found, extension?_eq_some_iff.1 read, agreeUpToCase_iff.1 has⟩
    · cases has
  · rintro ⟨found, ends, agree⟩
    rw [extension?_eq_some_iff.2 ends]
    exact agreeUpToCase_iff.2 agree

end ModBench.Path
