import Mathlib.Data.List.Basic
import ModBench.Proofs.Path.Spelling
import ModBench.Url

/-!
URLs of files.  Percent encoding loses nothing and keeps slashes apart, so that two absolute paths
have one URL exactly when they have the same components.
-/

set_option autoImplicit false
set_option relaxedAutoImplicit false

namespace ModBench

/-- A text cut at its separators, when its beginning has none. -/
private theorem Text.split_append {sep : Char} {front text first : List Char}
    {pieces : List (List Char)} (apart : sep ∉ front) (cut : split sep text = first :: pieces) :
    split sep (front ++ text) = (front ++ first) :: pieces := by
  induction front with
  | nil => exact cut
  | cons c front ih =>
    rw [List.mem_cons, not_or] at apart
    rw [List.cons_append, split, if_neg (Ne.symm apart.1), ih apart.2]
    rfl

namespace Url

private theorem upperDigit_inj : ∀ m < 16, ∀ n < 16, upperDigit m = upperDigit n → m = n := by
  decide

private theorem upperDigit_ne_slash : ∀ n < 16, upperDigit n ≠ '/' := by
  decide

private theorem triple_inj {a b : UInt8} (h : triple a = triple b) : a = b := by
  have bound := a.toNat_lt
  have bound' := b.toNat_lt
  rw [triple, triple, List.cons.injEq, List.cons.injEq, List.cons.injEq] at h
  obtain ⟨_, high, low, _⟩ := h
  have highs := upperDigit_inj _ (by omega) _ (by omega) high
  have lows := upperDigit_inj _ (by omega) _ (by omega) low
  apply UInt8.toNat_inj.1
  omega

private theorem ofUInt8_inj {a b : UInt8} (h : Char.ofUInt8 a = Char.ofUInt8 b) : a = b := by
  have values := congrArg Char.toNat h
  exact UInt8.toNat_inj.1 values

/-! ### Segments -/

/-- A byte as it is written in a segment. -/
def written (b : UInt8) : List Char :=
  if isEncoded b then triple b else [Char.ofUInt8 b]

private theorem written_ne_nil (b : UInt8) : written b ≠ [] := by
  unfold written
  split <;> exact List.cons_ne_nil _ _

theorem isEncoded_of_mark {b : UInt8} {c : Char} (same : Char.ofUInt8 b = c)
    (mark : c ∈ marks) : isEncoded b = true := by
  simp [isEncoded, same, mark]

/-- The first byte of a segment can be told from how it is written. -/
private theorem eq_of_written_append {a b : UInt8} {text text' : List Char}
    (h : written a ++ text = written b ++ text') : a = b := by
  by_cases encoded : isEncoded a = true <;> by_cases encoded' : isEncoded b = true
  · rw [written, if_pos encoded, written, if_pos encoded'] at h
    exact triple_inj (List.append_inj h rfl).1
  · -- A percent sign is itself encoded.
    rw [written, if_pos encoded, written, if_neg encoded'] at h
    exact absurd (isEncoded_of_mark (List.cons.inj h).1.symm (by decide)) encoded'
  · rw [written, if_neg encoded, written, if_pos encoded'] at h
    exact absurd (isEncoded_of_mark (List.cons.inj h).1 (by decide)) encoded
  · rw [written, if_neg encoded, written, if_neg encoded'] at h
    exact ofUInt8_inj (List.cons.inj h).1

theorem encodeSegment_injective : Function.Injective encodeSegment := by
  intro segment other same
  change segment.flatMap written = other.flatMap written at same
  induction segment generalizing other with
  | nil =>
    cases other with
    | nil => rfl
    | cons d other =>
      rw [List.flatMap_nil, List.flatMap_cons, eq_comm, List.append_eq_nil_iff] at same
      exact absurd same.1 (written_ne_nil d)
  | cons c segment ih =>
    cases other with
    | nil =>
      rw [List.flatMap_nil, List.flatMap_cons, List.append_eq_nil_iff] at same
      exact absurd same.1 (written_ne_nil c)
    | cons d other =>
      rw [List.flatMap_cons, List.flatMap_cons] at same
      obtain rfl := eq_of_written_append same
      rw [ih (List.append_cancel_left same)]

private theorem encodeSegment_ne_nil {segment : List UInt8} (some_text : segment ≠ []) :
    encodeSegment segment ≠ [] := by
  intro empty
  have same : encodeSegment segment = encodeSegment [] := empty
  exact some_text (encodeSegment_injective same)

private theorem slash_not_mem_encodeSegment (segment : List UInt8) :
    '/' ∉ encodeSegment segment := by
  intro mem
  obtain ⟨b, _, inside⟩ := List.mem_flatMap.1 mem
  split at inside
  · have bound := b.toNat_lt
    have high := upperDigit_ne_slash (b.toNat / 16) (by omega)
    have low := upperDigit_ne_slash (b.toNat % 16) (by omega)
    simp only [triple, List.mem_cons, List.not_mem_nil, or_false] at inside
    rcases inside with percent | here | here
    · cases percent
    · exact high here.symm
    · exact low here.symm
  · rename_i plain
    exact plain (isEncoded_of_mark (List.mem_singleton.1 inside).symm (by decide))

/-- Segments without slashes come back from a path text. -/
private theorem split_segments {segments : List (List Char)} (apart : ∀ s ∈ segments, '/' ∉ s) :
    Text.split '/' (segments.flatMap fun segment => '/' :: segment) = [] :: segments := by
  induction segments with
  | nil => rfl
  | cons segment rest ih =>
    rw [List.forall_mem_cons] at apart
    rw [List.flatMap_cons, List.cons_append, Text.split, if_pos rfl,
      Text.split_append apart.1 (ih apart.2), List.append_nil]

/-! ### Names -/

/-- What a component is can be told from how it is written. -/
private theorem componentOf_bytes {piece : List UInt8} {c : Component}
    (here : Path.componentOf piece = some c) :
    Path.componentOf c.bytes = some c ∧ c.bytes ≠ [] := by
  have read := here
  unfold Path.componentOf at here
  split at here
  · cases here
  rename_i counts
  split at here
  · obtain rfl := Option.some.inj here
    exact ⟨rfl, List.cons_ne_nil _ _⟩
  · obtain rfl := Option.some.inj here
    exact ⟨read, (not_or.1 counts).1⟩

theorem components_of_absolute {p : Path} (absolute : p.isAbsolute = true) :
    ∃ pieces : List (List UInt8), p.components = .root :: pieces.filterMap Path.componentOf := by
  unfold Path.isAbsolute at absolute
  cases eq : p.bytes with
  | nil =>
    rw [eq] at absolute
    cases absolute
  | cons b rest =>
    obtain rfl : b = slash := by simpa [eq] using absolute
    refine ⟨Text.split slash rest, ?_⟩
    rw [Path.components, eq]
    rfl

theorem isAbsolute_of_root {p : Path} {rest : List Component}
    (components : p.components = .root :: rest) : p.isAbsolute = true := by
  rw [Path.components_eq] at components
  have spelled := Path.bytes_cutStart p.bytes
  cases start : (Path.cutStart p.bytes).1 with
  | slash =>
    rw [start] at spelled
    rw [Path.isAbsolute, ← spelled]
    rfl
  | dot =>
    rw [start] at components
    cases components
  | nothing =>
    -- A stretch between slashes is never the root.
    rw [start, Path.Start.components, List.nil_append] at components
    have mem : Component.root ∈ Path.namedIn (Text.split slash (Path.cutStart p.bytes).2) := by
      rw [components]
      exact List.mem_cons_self
    obtain ⟨piece, _, here⟩ := List.mem_filterMap.1 mem
    unfold Path.componentOf at here
    split at here
    · cases here
    · split at here <;> cases here

theorem isAbsolute_of_same {p q : Path} (same : p.same q = true) (absolute : p.isAbsolute = true) :
    q.isAbsolute = true := by
  obtain ⟨pieces, eq⟩ := components_of_absolute absolute
  exact isAbsolute_of_root ((Path.same_iff.1 same).symm.trans eq)

private theorem namesOf_spec {p : Path} (absolute : p.isAbsolute = true) :
    (∀ name ∈ namesOf p, name ≠ []) ∧
      p.components = .root :: (namesOf p).filterMap Path.componentOf := by
  obtain ⟨pieces, eq⟩ := components_of_absolute absolute
  have names : namesOf p = (pieces.filterMap Path.componentOf).map Component.bytes := by
    rw [namesOf, eq]
    rfl
  constructor
  · intro name mem
    rw [names] at mem
    obtain ⟨c, inside, rfl⟩ := List.mem_map.1 mem
    obtain ⟨piece, _, here⟩ := List.mem_filterMap.1 inside
    exact (componentOf_bytes here).2
  · rw [names, List.filterMap_map, eq]
    congr 1
    have back : ∀ c ∈ pieces.filterMap Path.componentOf,
        (Path.componentOf ∘ Component.bytes) c = some c := by
      intro c inside
      obtain ⟨piece, _, here⟩ := List.mem_filterMap.1 inside
      exact (componentOf_bytes here).1
    rw [List.filterMap_congr back, List.filterMap_some]

/-! ### The URL of a path -/

theorem exists_ofPath?_iff {p : Path} : (∃ u, ofPath? p = some u) ↔ p.isAbsolute = true := by
  unfold ofPath?
  cases p.isAbsolute <;> simp

/-- The segments of the URL of a path with some names. -/
def segmentsFor (names : List (List UInt8)) : List (List Char) :=
  if (names.map encodeSegment).isEmpty then [[]] else names.map encodeSegment

private theorem segmentsFor_inj {names others : List (List UInt8)}
    (filled : ∀ name ∈ names, name ≠ []) (filled' : ∀ name ∈ others, name ≠ [])
    (same : segmentsFor names = segmentsFor others) : names = others := by
  -- The root has one empty segment, which is not how a name is written.
  have unlike : ∀ {names : List (List UInt8)}, (∀ name ∈ names, name ≠ []) → names ≠ [] →
      names.map encodeSegment ≠ [[]] := by
    intro names filled some_name root
    obtain ⟨name, rest, rfl⟩ := List.exists_cons_of_ne_nil some_name
    rw [List.map_cons] at root
    exact encodeSegment_ne_nil (filled name List.mem_cons_self) (List.cons.inj root).1
  unfold segmentsFor at same
  by_cases empty : names = [] <;> by_cases empty' : others = []
  · rw [empty, empty']
  · rw [if_pos (by simp [empty]), if_neg (by simp [empty'])] at same
    exact absurd same.symm (unlike filled' empty')
  · rw [if_neg (by simp [empty]), if_pos (by simp [empty'])] at same
    exact absurd same (unlike filled empty)
  · rw [if_neg (by simp [empty]), if_neg (by simp [empty'])] at same
    exact encodeSegment_injective.list_map same

private theorem text_of_ofPath? {p : Path} {u : Url} (named : ofPath? p = some u) :
    u.text.toList = "file://".toList ++
      (segmentsFor (namesOf p)).flatMap fun segment => '/' :: segment := by
  unfold ofPath? at named
  split at named
  · cases named
    simp [text, segmentsFor]
  · cases named

/-- Two absolute paths have one URL when they have the same components, and only then. -/
theorem text_eq_iff_same {p q : Path} {u v : Url} (named : ofPath? p = some u)
    (named' : ofPath? q = some v) : u.text = v.text ↔ p.same q = true := by
  have absolute := exists_ofPath?_iff.1 ⟨u, named⟩
  have absolute' := exists_ofPath?_iff.1 ⟨v, named'⟩
  obtain ⟨filled, components⟩ := namesOf_spec absolute
  obtain ⟨filled', components'⟩ := namesOf_spec absolute'
  have spelled := text_of_ofPath? named
  have spelled' := text_of_ofPath? named'
  constructor
  · intro same
    rw [same, spelled'] at spelled
    have apart : ∀ names : List (List UInt8), ∀ s ∈ segmentsFor names, '/' ∉ s := by
      intro names s mem
      unfold segmentsFor at mem
      split at mem
      · rw [List.mem_singleton.1 mem]
        exact List.not_mem_nil
      · obtain ⟨name, _, rfl⟩ := List.mem_map.1 mem
        exact slash_not_mem_encodeSegment name
    have cut := congrArg (Text.split '/') (List.append_cancel_left spelled)
    rw [split_segments (apart _), split_segments (apart _)] at cut
    have names := segmentsFor_inj filled' filled (List.cons.inj cut).2
    rw [Path.same_iff, components, components', names]
  · intro same
    have names : namesOf p = namesOf q := by
      rw [namesOf, namesOf, Path.same_iff.1 same]
    apply String.toList_inj.1
    rw [spelled, spelled', names]

end Url

end ModBench
