import ModBench.Proofs.Url.Files

/-!
Paths named by URLs.  A URL that was read from a text has at least one segment in its path, if it
has a path at all; so every path that such a URL names begins at the root.
-/

set_option autoImplicit false
set_option relaxedAutoImplicit false

namespace ModBench.Url

/-! ### Segments -/

private theorem resolve_ne_nil (isFile : Bool) {segments : List (List Char)}
    (filled : segments ≠ []) (done : List (List Char)) : resolve isFile done segments ≠ [] := by
  induction segments generalizing done with
  | nil => exact absurd rfl filled
  | cons segment rest ih =>
    have closed : ∀ done : List (List Char), done ++ [[]] ≠ [] := by simp
    unfold resolve
    dsimp only
    by_cases last : rest = []
    · subst last
      split
      · exact closed _
      split
      · exact closed _
      · unfold resolve addSegment
        split <;> simp
    · have more : rest.isEmpty = false := by simpa using last
      rw [more]
      split
      · exact ih last _
      split
      · exact ih last _
      · exact ih last _

private theorem dropEmpty_ne_nil {segments : List (List Char)} (filled : segments ≠ []) :
    dropEmpty segments ≠ [] := by
  induction segments with
  | nil => exact absurd rfl filled
  | cons segment rest ih =>
    cases segment with
    | cons c segment => simp [dropEmpty]
    | nil =>
      cases rest with
      | nil => simp [dropEmpty]
      | cons next rest => exact ih (List.cons_ne_nil next rest)

private theorem segmentsOf_ne_nil (isFile : Bool) (text : List Char) :
    segmentsOf isFile text ≠ [] := by
  have resolved := resolve_ne_nil isFile (Text.split_ne_nil '/' text) []
  unfold segmentsOf
  dsimp only
  split
  · exact dropEmpty_ne_nil resolved
  · exact resolved

/-- The path of the URL, if there is one, has a segment. -/
def HasSegments (u : Url) : Prop :=
  ∀ segments, u.segments = some segments → segments ≠ []

theorem hasSegments_of_segmentsOf (scheme : String) (host : Option (List Char)) (isFile : Bool)
    (text : List Char) : HasSegments ⟨scheme, host, some (segmentsOf isFile text)⟩ := by
  intro segments eq
  rw [← Option.some.inj eq]
  exact segmentsOf_ne_nil isFile text

variable {u : Url} {scheme : String} {text : List Char}

private theorem hasSegments_of_parseFile? (parsed : parseFile? text = some u) : u.HasSegments := by
  have at_file : ∀ host behind, HasSegments ⟨"file", host, some (fileSegments behind)⟩ :=
    fun host _ => hasSegments_of_segmentsOf "file" host true _
  have authority : ∀ {text : List Char}, parseFileAuthority? text = some u → u.HasSegments := by
    intro text parsed
    unfold parseFileAuthority? at parsed
    dsimp only at parsed
    split at parsed
    · exact Option.some.inj parsed ▸ at_file _ _
    split at parsed
    · exact Option.some.inj parsed ▸ at_file _ _
    split at parsed
    · cases parsed
    split at parsed <;> exact Option.some.inj parsed ▸ at_file _ _
  unfold parseFile? at parsed
  split at parsed
  · exact authority parsed
  · exact Option.some.inj parsed ▸ at_file _ _

private theorem hasSegments_of_parseAuthority? (parsed : parseAuthority? scheme text = some u) :
    u.HasSegments := by
  unfold parseAuthority? at parsed
  dsimp only at parsed
  split at parsed
  · cases parsed
  split at parsed
  · obtain ⟨host, _, rfl⟩ := Option.map_eq_some_iff.1 parsed
    exact hasSegments_of_segmentsOf _ _ _ _
  · obtain ⟨host, _, rfl⟩ := Option.map_eq_some_iff.1 parsed
    intro segments eq
    dsimp only at eq
    split at eq
    · cases eq
    · exact hasSegments_of_segmentsOf "" none _ _ segments eq

private theorem hasSegments_of_parse? {text : String} (parsed : parse? text = some u) :
    u.HasSegments := by
  unfold parse? at parsed
  split at parsed
  · cases parsed
  split at parsed
  · exact hasSegments_of_parseFile? parsed
  split at parsed
  · exact hasSegments_of_parseAuthority? parsed
  unfold parsePlain? at parsed
  split at parsed
  · exact hasSegments_of_parseAuthority? parsed
  · exact Option.some.inj parsed ▸ hasSegments_of_segmentsOf _ _ _ _
  · obtain rfl := Option.some.inj parsed
    exact nofun

/-! ### Paths -/

private theorem isAbsolute_pathOfSegments {segments : List (List Char)} (filled : segments ≠ []) :
    (pathOfSegments segments).isAbsolute = true := by
  obtain ⟨segment, rest, rfl⟩ := List.exists_cons_of_ne_nil filled
  have begins : bytesOf (segment :: rest) = slash :: (decode segment ++ bytesOf rest) := rfl
  unfold pathOfSegments
  dsimp only
  rw [begins]
  split <;> rfl

/-- Some text is read as the URL. -/
def Readable (u : Url) : Prop :=
  ∃ text, parse? text = some u

/-- A URL that can be read names the path. -/
def Names (p : Path) : Prop :=
  ∃ u : Url, u.Readable ∧ u.toPath? = some p

/-- Only absolute paths are named by URLs. -/
theorem Names.isAbsolute {p : Path} (named : Names p) : p.isAbsolute = true := by
  obtain ⟨u, ⟨text, parsed⟩, leads⟩ := named
  unfold toPath? at leads
  split at leads
  · obtain ⟨segments, eq, rfl⟩ := Option.map_eq_some_iff.1 leads
    exact isAbsolute_pathOfSegments (hasSegments_of_parse? parsed segments eq)
  · cases leads

end ModBench.Url
