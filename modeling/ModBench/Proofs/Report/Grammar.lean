import Mathlib.Data.List.Basic
import ModBench.Report.Header

/-!
The grammar of headers.  Here it is said without a reader what a header is, and proved that the
reader finds exactly the headers of the grammar.
-/

set_option autoImplicit false
set_option relaxedAutoImplicit false

namespace ModBench.Report

def Location.text (l : Location) : List Char :=
  l.file ++ ':' :: (l.line ++ ':' :: l.column)

/-- The location is its text, which stays on one line, cut at the last two colons; colons of the
file itself are its first or second character. -/
structure Location.Cut (l : Location) : Prop where
  file : ':' ∉ l.file.drop 2
  line : ':' ∉ l.line
  column : ':' ∉ l.column
  one_line : '\n' ∉ l.text

def Opens (text : List Char) : Prop :=
  ∃ c rest, text = c :: rest ∧ Text.isBlank c = false

/-- Spaces and tabs, perhaps a carriage return, and a line feed. -/
def IsLineEnd (text : List Char) : Prop :=
  ∃ spaces ret, (∀ c ∈ spaces, c = ' ' ∨ c = '\t') ∧ (ret = [] ∨ ret = ['\r']) ∧
    text = spaces ++ ret ++ ['\n']

/-- The text is a header: marker, location, colon, line end. -/
def IsHeader (g : Grammar) (text : List Char) (h : Header) : Prop :=
  ∃ marker ending, (marker, h.severity) ∈ markers g ∧ Opens h.location.file ∧ h.location.Cut ∧
    IsLineEnd ending ∧ text = marker ++ h.location.text ++ ':' :: ending

/-! ### The readers -/

private theorem after?_eq_some_iff {beginning text rest : List Char} :
    after? beginning text = some rest ↔ text = beginning ++ rest := by
  induction beginning generalizing text with
  | nil => simp [after?]
  | cons c beginning ih =>
    cases text with
    | nil => simp [after?]
    | cons d text =>
      rw [after?]
      split
      · rename_i same
        rw [ih, same, List.cons_append, List.cons.injEq]
        simp
      · rename_i other
        simp only [reduceCtorEq, List.cons_append, List.cons.injEq, false_iff]
        exact fun h => other h.1.symm

theorem mem_of_marker? {ms : List (List Char × Severity)} {text rest : List Char}
    {severity : Severity} (h : marker? ms text = some (severity, rest)) :
    ∃ marker, (marker, severity) ∈ ms ∧ text = marker ++ rest := by
  induction ms with
  | nil => cases h
  | cons m ms ih =>
    rw [marker?] at h
    split at h
    · rename_i more found
      cases h
      exact ⟨m.1, List.mem_cons_self, after?_eq_some_iff.1 found⟩
    · obtain ⟨marker, mem, eq⟩ := ih h
      exact ⟨marker, List.mem_cons_of_mem _ mem, eq⟩

/-- No marker of a grammar begins another. -/
private theorem marker?_append {g : Grammar} {marker : List Char} {severity : Severity}
    (mem : (marker, severity) ∈ markers g) (rest : List Char) :
    marker? (markers g) (marker ++ rest) = some (severity, rest) := by
  cases g with
  | tagged =>
    simp only [markers, List.mem_cons, List.not_mem_nil, or_false, Prod.mk.injEq] at mem
    rcases mem with ⟨rfl, rfl⟩ | ⟨rfl, rfl⟩ | ⟨rfl, rfl⟩ <;> rfl
  | legacy =>
    simp only [markers, List.mem_singleton, Prod.mk.injEq] at mem
    obtain ⟨rfl, rfl⟩ := mem
    rfl

theorem field?_append {value : List Char} (colon : ':' ∉ value) (feed : '\n' ∉ value)
    (rest : List Char) : field? (value ++ ':' :: rest) = some (value, rest) := by
  induction value with
  | nil => simp [field?]
  | cons c value ih =>
    rw [List.mem_cons, not_or] at colon feed
    rw [List.cons_append, field?, if_neg (Ne.symm colon.1), if_neg (Ne.symm feed.1),
      ih colon.2 feed.2]

private theorem field?_eq_none {text : List Char} (colon : ':' ∉ text) (rest : List Char) :
    field? (text ++ '\n' :: rest) = none := by
  induction text with
  | nil => simp [field?]
  | cons c text ih =>
    rw [List.mem_cons, not_or] at colon
    rw [List.cons_append, field?, if_neg (Ne.symm colon.1), ih colon.2]
    split <;> rfl

theorem of_field? {text value rest : List Char} (h : field? text = some (value, rest)) :
    text = value ++ ':' :: rest ∧ ':' ∉ value ∧ '\n' ∉ value := by
  induction text generalizing value with
  | nil => cases h
  | cons c text ih =>
    rw [field?] at h
    split at h
    · rename_i colon
      cases h
      exact ⟨by rw [colon]; rfl, List.not_mem_nil, List.not_mem_nil⟩
    · rename_i colon
      split at h
      · cases h
      · rename_i feed
        split at h
        · rename_i inner more found
          cases h
          obtain ⟨eq, no_colon, no_feed⟩ := ih found
          refine ⟨by rw [eq]; rfl, ?_, ?_⟩
          · rw [List.mem_cons, not_or]
            exact ⟨Ne.symm colon, no_colon⟩
          · rw [List.mem_cons, not_or]
            exact ⟨Ne.symm feed, no_feed⟩
        · cases h

private theorem lineEnd?_append {ending : List Char} (ends : IsLineEnd ending) (rest : List Char) :
    lineEnd? (ending ++ rest) = some rest := by
  obtain ⟨spaces, ret, blank, returns, rfl⟩ := ends
  induction spaces with
  | nil => rcases returns with rfl | rfl <;> rfl
  | cons c spaces ih =>
    have ih := ih fun d mem => blank d (List.mem_cons_of_mem c mem)
    rcases blank c List.mem_cons_self with rfl | rfl
    · exact ih
    · exact ih

private theorem of_lineEnd? {text rest : List Char} (h : lineEnd? text = some rest) :
    ∃ ending, IsLineEnd ending ∧ text = ending ++ rest := by
  fun_induction lineEnd? text with
  | case1 more =>
    cases h
    exact ⟨['\n'], ⟨[], [], by simp, Or.inl rfl, rfl⟩, rfl⟩
  | case2 more =>
    cases h
    exact ⟨['\r', '\n'], ⟨[], ['\r'], by simp, Or.inr rfl, rfl⟩, rfl⟩
  | case3 more ih =>
    obtain ⟨_, ⟨spaces, ret, blank, returns, rfl⟩, rfl⟩ := ih h
    refine ⟨_, ⟨' ' :: spaces, ret, ?_, returns, rfl⟩, rfl⟩
    exact List.forall_mem_cons.2 ⟨Or.inl rfl, blank⟩
  | case4 more ih =>
    obtain ⟨_, ⟨spaces, ret, blank, returns, rfl⟩, rfl⟩ := ih h
    refine ⟨_, ⟨'\t' :: spaces, ret, ?_, returns, rfl⟩, rfl⟩
    exact List.forall_mem_cons.2 ⟨Or.inr rfl, blank⟩
  | case5 => cases h

private theorem fields?_append {l : Location} (file : ':' ∉ l.file) (line : ':' ∉ l.line)
    (column : ':' ∉ l.column) (one_line : '\n' ∉ l.text) {ending : List Char}
    (ends : IsLineEnd ending) (rest : List Char) :
    fields? (l.text ++ ':' :: (ending ++ rest)) = some (l, rest) := by
  simp only [Location.text, List.mem_append, List.mem_cons, not_or] at one_line
  obtain ⟨feed_file, _, feed_line, _, feed_column⟩ := one_line
  simp only [Location.text, List.append_assoc, List.cons_append, fields?,
    field?_append file feed_file, field?_append line feed_line,
    field?_append column feed_column, lineEnd?_append ends]

private theorem of_fields? {text rest : List Char} {l : Location}
    (h : fields? text = some (l, rest)) :
    ':' ∉ l.file ∧ ':' ∉ l.line ∧ ':' ∉ l.column ∧ '\n' ∉ l.text ∧
      ∃ ending, IsLineEnd ending ∧ text = l.text ++ ':' :: (ending ++ rest) := by
  unfold fields? at h
  split at h
  · cases h
  · rename_i file afterFile found_file
    split at h
    · cases h
    · rename_i line afterLine found_line
      split at h
      · cases h
      · rename_i column afterColumn found_column
        split at h
        · cases h
        · rename_i found_end
          cases h
          obtain ⟨rfl, colon_file, feed_file⟩ := of_field? found_file
          obtain ⟨rfl, colon_line, feed_line⟩ := of_field? found_line
          obtain ⟨rfl, colon_column, feed_column⟩ := of_field? found_column
          obtain ⟨ending, ends, rfl⟩ := of_lineEnd? found_end
          refine ⟨colon_file, colon_line, colon_column, ?_, ending, ends, ?_⟩
          · simp [Location.text, feed_file, feed_line, feed_column]
          · simp [Location.text]

/-- Two fields and a line end are no three. -/
private theorem fields?_eq_none {line column ending : List Char} (colon_line : ':' ∉ line)
    (colon_column : ':' ∉ column) (feed_line : '\n' ∉ line) (feed_column : '\n' ∉ column)
    (ends : IsLineEnd ending) (rest : List Char) :
    fields? (line ++ ':' :: (column ++ ':' :: (ending ++ rest))) = none := by
  obtain ⟨spaces, ret, blank, returns, rfl⟩ := ends
  have no_colon : ':' ∉ spaces ++ ret := by
    intro mem
    rcases List.mem_append.1 mem with inside | inside
    · rcases blank _ inside with h | h <;> cases h
    · rcases returns with rfl | rfl
      · cases inside
      · cases List.mem_singleton.1 inside
  have no_field := field?_eq_none no_colon rest
  rw [List.append_assoc _ ['\n'] rest, List.singleton_append]
  simp only [fields?, field?_append colon_line feed_line, field?_append colon_column feed_column,
    no_field]

/-! ### Locations -/

theorem drive?_of_ne {letter d : Char} (h : d ≠ ':') (rest : List Char) :
    drive? letter (d :: rest) = none := by
  unfold drive?
  split
  · rename_i eq
    cases eq
    exact absurd rfl h
  · rfl

private theorem location?_append {l : Location} (opens : Opens l.file) (cut : l.Cut)
    {ending : List Char} (ends : IsLineEnd ending) (rest : List Char) :
    location? (l.text ++ ':' :: (ending ++ rest)) = some (l, rest) := by
  obtain ⟨file, line, column⟩ := l
  obtain ⟨colon_file, colon_line, colon_column, one_line⟩ := cut
  obtain ⟨c, tail, rfl, visible⟩ := opens
  have first : (Location.mk (c :: tail) line column).text =
      c :: (Location.mk tail line column).text := rfl
  have one_line' : '\n' ∉ (Location.mk tail line column).text := by
    rw [first, List.mem_cons, not_or] at one_line
    exact one_line.2
  rw [first, List.cons_append, location?, if_neg (by simp [visible])]
  cases tail with
  | nil =>
    -- The colon after the first character could be that of a drive, but then a field is missing.
    have undriven : drive? c ((Location.mk [] line column).text ++ ':' :: (ending ++ rest)) =
        none := by
      have feeds : '\n' ∉ line ∧ '\n' ∉ column := by
        simpa [Location.text] using one_line'
      have missing := fields?_eq_none colon_line colon_column feeds.1 feeds.2 ends rest
      simp only [Location.text, List.nil_append, List.cons_append, List.append_assoc, drive?,
        missing, Option.map_none]
    have read := fields?_append (l := ⟨[], line, column⟩) List.not_mem_nil colon_line colon_column
      one_line' ends rest
    rw [undriven, read]
    rfl
  | cons d file =>
    by_cases drive : d = ':'
    · subst drive
      have one_line'' : '\n' ∉ (Location.mk file line column).text := by
        have again : (Location.mk (':' :: file) line column).text =
            ':' :: (Location.mk file line column).text := rfl
        rw [again, List.mem_cons, not_or] at one_line'
        exact one_line'.2
      have read := fields?_append (l := ⟨file, line, column⟩) colon_file colon_line colon_column
        one_line'' ends rest
      have driven : drive? c ((Location.mk (':' :: file) line column).text ++
          ':' :: (ending ++ rest)) = some (⟨c :: ':' :: file, line, column⟩, rest) :=
        congrArg (Option.map (Location.lead [c, ':'])) read
      rw [driven]
    · have undriven : drive? c ((Location.mk (d :: file) line column).text ++
          ':' :: (ending ++ rest)) = none := drive?_of_ne drive _
      have no_colon : ':' ∉ d :: file := by
        rw [List.mem_cons, not_or]
        exact ⟨Ne.symm drive, colon_file⟩
      have read := fields?_append (l := ⟨d :: file, line, column⟩) no_colon colon_line colon_column
        one_line' ends rest
      rw [undriven, read]
      rfl

private theorem of_location? {text rest : List Char} {l : Location}
    (h : location? text = some (l, rest)) : Opens l.file ∧ l.Cut ∧
      ∃ ending, IsLineEnd ending ∧ text = l.text ++ ':' :: (ending ++ rest) := by
  cases text with
  | nil => cases h
  | cons c text =>
    rw [location?] at h
    split at h
    · cases h
    · rename_i visible
      have visible : Text.isBlank c = false := Bool.eq_false_iff.2 visible
      have no_feed : c ≠ '\n' := by
        rintro rfl
        cases visible
      split at h
      · rename_i driven
        cases h
        unfold drive? at driven
        split at driven
        · rename_i text
          obtain ⟨⟨l', rest'⟩, read, eq⟩ := Option.map_eq_some_iff.1 driven
          obtain ⟨rfl, rfl⟩ := Prod.mk.inj eq
          obtain ⟨file, line, column, one_line, ending, ends, rfl⟩ := of_fields? read
          refine ⟨⟨c, _, rfl, visible⟩, ⟨file, line, column, ?_⟩, ending, ends, rfl⟩
          intro mem
          rcases List.mem_cons.1 mem with eq | mem
          · exact no_feed eq.symm
          · rcases List.mem_cons.1 mem with eq | inside
            · cases eq
            · exact one_line inside
        · cases driven
      · obtain ⟨⟨l', rest'⟩, read, eq⟩ := Option.map_eq_some_iff.1 h
        obtain ⟨rfl, rfl⟩ := Prod.mk.inj eq
        obtain ⟨file, line, column, one_line, ending, ends, rfl⟩ := of_fields? read
        refine ⟨⟨c, _, rfl, visible⟩, ⟨?_, line, column, ?_⟩, ending, ends, rfl⟩
        · exact fun mem => file (List.mem_of_mem_drop (i := 1) mem)
        · intro mem
          rcases List.mem_cons.1 mem with eq | inside
          · exact no_feed eq.symm
          · exact one_line inside

/-! ### Headers -/

/-- A text that begins with a header is read as that header. -/
theorem header?_append {g : Grammar} {text : List Char} {h : Header} (is : IsHeader g text h)
    (rest : List Char) : header? g (text ++ rest) = some (h, rest) := by
  obtain ⟨marker, ending, mem, opens, cut, ends, rfl⟩ := is
  have spelled : marker ++ h.location.text ++ ':' :: ending ++ rest =
      marker ++ (h.location.text ++ ':' :: (ending ++ rest)) := by
    simp only [List.append_assoc, List.cons_append]
  rw [spelled, header?, marker?_append mem]
  simp only [location?_append opens cut ends rest, Option.map_some]

/-- What is read as a header is one. -/
theorem of_header? {g : Grammar} {text rest : List Char} {h : Header}
    (found : header? g text = some (h, rest)) :
    ∃ here, IsHeader g here h ∧ text = here ++ rest := by
  unfold header? at found
  split at found
  · cases found
  · rename_i severity more marked
    obtain ⟨⟨l, rest'⟩, located, eq⟩ := Option.map_eq_some_iff.1 found
    obtain ⟨rfl, rfl⟩ := Prod.mk.inj eq
    obtain ⟨marker, mem, rfl⟩ := mem_of_marker? marked
    obtain ⟨opens, cut, ending, ends, rfl⟩ := of_location? located
    refine ⟨_, ⟨marker, ending, mem, opens, cut, ends, rfl⟩, ?_⟩
    simp only [List.append_assoc, List.cons_append]

end ModBench.Report
