import ModBench.Proofs.Files.Made

/-!
Directories once they are made.  A path whose directories were made leads to a directory, and making
them again changes nothing.  Before they are made no way leads into the directory.
-/

set_option autoImplicit false
set_option relaxedAutoImplicit false

namespace ModBench

/-- Everything but the separator is in a piece. -/
private theorem Text.exists_mem_split {α : Type} [DecidableEq α] {sep c : α} {text : List α}
    (mem : c ∈ text) (apart : c ≠ sep) : ∃ piece ∈ Text.split sep text, c ∈ piece := by
  induction text with
  | nil => exact absurd mem List.not_mem_nil
  | cons first text ih =>
    unfold Text.split
    split
    · rename_i cut
      rcases List.mem_cons.1 mem with rfl | mem
      · exact absurd cut apart
      · obtain ⟨piece, among, inside⟩ := ih mem
        exact ⟨piece, List.mem_cons_of_mem _ among, inside⟩
    · cases pieces_eq : Text.split sep text with
      | nil => exact absurd pieces_eq (Text.split_ne_nil sep text)
      | cons piece pieces =>
        rw [pieces_eq] at ih
        dsimp only
        rcases List.mem_cons.1 mem with rfl | mem
        · exact ⟨c :: piece, List.mem_cons_self, List.mem_cons_self⟩
        · obtain ⟨found, among, inside⟩ := ih mem
          rcases List.mem_cons.1 among with rfl | among
          · exact ⟨first :: found, List.mem_cons_self, List.mem_cons_of_mem _ inside⟩
          · exact ⟨found, List.mem_cons_of_mem _ among, inside⟩

namespace Files

namespace Tree

variable {t s : Tree} {follow : Bool} {links left : Nat} {here place : Place} {steps : List Name}

/-- A walk that may stop at a link ends at something where its steps lead anywhere. -/
private theorem Leads.walk_false (led : t.Leads links here steps left place) :
    ∃ place, t.walk false links here steps = .ok (.node place) := by
  induction led with
  | stay => exact ⟨_, walk_nil _ _ _ _⟩
  | here housed _ ih => rwa [walk_cons, if_neg (not_not_intro housed), if_pos rfl]
  | up housed _ ih =>
    rwa [walk_cons, if_neg (not_not_intro housed), if_neg dotsName_ne_dotName, if_pos rfl]
  | enter housed looked found real _ ih =>
    rw [walk_looked housed looked, found]
    rename_i node _
    cases node with
    | file => exact ih
    | directory => exact ih
    | link target => exact absurd rfl (real target)
  | through housed looked found _ ih =>
    rw [walk_looked housed looked, found]
    dsimp only
    split
    · exact ⟨_, rfl⟩
    · exact ih

/-- What stands in a tree with more in it is missing here, or it stands here too. -/
private theorem Within.missing_or {node : Node} (within : Within t s)
    (found : s.find? place = some node) : t.find? place = none ∨ t.find? place = some node := by
  cases there : t.find? place with
  | none => exact .inl rfl
  | some other =>
    have kept := within _ _ there
    rw [found] at kept
    exact .inr kept.symm

/-- Nothing is found behind a name that is missing. -/
private theorem walk_missing {name : Name} {rest more : List Name}
    (housed : t.find? here = some .directory) (looked : Looked name)
    (missing : t.find? (here ++ [name]) = none) (filled : more ≠ []) :
    t.walk follow links here (name :: rest ++ more) = .error .notFound := by
  rw [List.cons_append, walk_looked housed looked, missing]
  exact if_neg (by simp [filled])

/-- Where the steps of a way cannot all be taken because something is still missing, nothing is
found behind them. -/
private theorem Leads.lost (led : s.Leads links here steps left place) (housing : t.Housed)
    (within : Within t s) (begins : t.find? here = s.find? here) :
    t.Leads links here steps left place ∨
      ∀ more, more ≠ [] → t.walk follow links here (steps ++ more) = .error .notFound := by
  -- The directory from which a step is taken is there in both trees.
  induction led with
  | stay => exact .inl (.stay _ _)
  | here housed _ ih =>
    have housed' := begins.trans housed
    rcases ih begins with led | lost
    · exact .inl (.here housed' led)
    · refine .inr fun more filled => ?_
      rw [List.cons_append, walk_cons, if_neg (not_not_intro housed'), if_pos rfl]
      exact lost more filled
  | up housed _ ih =>
    have housed' := begins.trans housed
    have above := housing.dropLast housed'
    rcases ih (above.trans (within _ _ above).symm) with led | lost
    · exact .inl (.up housed' led)
    · refine .inr fun more filled => ?_
      rw [List.cons_append, walk_cons, if_neg (not_not_intro housed'),
        if_neg dotsName_ne_dotName, if_pos rfl]
      exact lost more filled
  | enter housed looked found real _ ih =>
    rename_i node _
    have housed' := begins.trans housed
    rcases within.missing_or found with missing | there
    · exact .inr fun more filled => walk_missing housed' looked missing filled
    · rcases ih (there.trans found.symm) with led | lost
      · exact .inl (.enter housed' looked there real led)
      · refine .inr fun more filled => ?_
        rw [List.cons_append, walk_looked housed' looked, there]
        cases node with
        | file => exact lost more filled
        | directory => exact lost more filled
        | link target => exact absurd rfl (real target)
  | through housed looked found more ih =>
    rename_i before goal rest name target
    have housed' := begins.trans housed
    rcases within.missing_or found with missing | there
    · exact .inr fun more filled => walk_missing housed' looked missing filled
    · have begins' : t.find? (if target.isAbsolute then [] else before) =
          s.find? (if target.isAbsolute then [] else before) := by
        split
        · rfl
        · exact begins
      rcases ih begins' with led | lost
      · exact .inl (.through housed' looked there led)
      · refine .inr fun more filled => ?_
        rw [List.cons_append, walk_looked housed' looked, there]
        dsimp only
        rw [if_neg (by simp [filled]), ← List.append_assoc]
        exact lost more filled

end Tree

namespace Disk

variable {d d' : Disk} {p q : Path} {place : Place} {paths missing : List Path}

/-! ### Paths above which nothing is -/

/-- A path above which nothing is has no text, or is made of slashes and dots behind a first one. -/
theorem top_cases (top : isTop p = true) : p.bytes = [] ∨
    p.isAbsolute = true ∧ ∀ piece ∈ Text.split slash p.bytes, piece = [] ∨ piece = dotName := by
  have short : p.components = [] ∨ p.components = [.root] := by
    rcases Bool.or_eq_true_iff.1 top with empty | orphan
    · exact .inl (List.isEmpty_iff.1 empty)
    · rcases Path.components_parent? p with ⟨_, short⟩ | ⟨_, _, some, _⟩
      · exact short
      · rw [some] at orphan
        cases orphan
  rcases short with empty | root
  · exact .inl (Path.components_eq_nil_iff.1 empty)
  right
  have written := Path.bytes_cutStart p.bytes
  rw [Path.components_eq] at root
  cases cut : Path.cutStart p.bytes with
  | mk start body =>
    rw [cut] at root written
    dsimp only at root written
    cases start with
    | slash =>
      have spelled : p = ⟨slash :: body⟩ := congrArg Path.mk written.symm
      have idle : Path.namedIn (Text.split slash body) = [] := by
        simpa [Path.Start.components] using root
      rw [spelled]
      refine ⟨rfl, fun piece mem => ?_⟩
      rw [Text.split, if_pos rfl] at mem
      rcases List.mem_cons.1 mem with rfl | mem
      · exact .inl rfl
      · exact Path.componentOf_eq_none (List.filterMap_eq_nil_iff.1 idle piece mem)
    | dot => cases root
    | nothing =>
      -- No piece of a path is the root.
      have named : Component.root ∈ Path.namedIn (Text.split slash body) := by
        have whole : Path.namedIn (Text.split slash body) = [.root] := root
        simp [whole]
      obtain ⟨piece, _, counts⟩ := List.mem_filterMap.1 named
      exact absurd counts (Path.componentOf_ne_root piece)

private theorem isSpellable_of_top (top : isTop p = true) : isSpellable p = true := by
  rcases top_cases top with empty | ⟨_, idle⟩
  · rw [isSpellable, empty]
    rfl
  · by_contra spelled
    have mem : 0 ∈ p.bytes := by simpa [isSpellable] using spelled
    obtain ⟨piece, among, inside⟩ := Text.exists_mem_split mem zero_ne_slash
    rcases idle piece among with rfl | rfl
    · cases inside
    · exact absurd (List.mem_singleton.1 inside) (by decide)

private theorem reaches_of_top (top : isTop p = true) (cwd : d.tree.find? d.cwd = some .directory) :
    ∃ place, d.Reaches p place := by
  have steps : ∀ step ∈ stepsOf p, step = dotName := by
    intro step mem
    obtain ⟨mem, filled⟩ := List.mem_filter.1 mem
    rcases top_cases top with empty | ⟨_, idle⟩
    · rw [empty] at mem
      obtain rfl := List.mem_singleton.1 mem
      cases filled
    · rcases idle step mem with rfl | dot
      · cases filled
      · exact dot
  have begins : d.tree.find? (d.start p) = some .directory := by
    rw [start]
    split
    · rfl
    · exact cwd
  exact ⟨d.start p, ⟨maxLinks, Tree.leads_dots steps begins⟩, begins⟩

/-! ### What was made is there -/

theorem isSpellable_of_makeDirectory (made : d.makeDirectory p = .ok d') :
    isSpellable p = true := by
  by_contra unspellable
  rw [makeDirectory, if_neg unspellable] at made
  cases made

private theorem opens_of_makeEach (made : d.makeEach paths = (.ok (), d')) :
    ∀ p ∈ paths, isSpellable p = true ∧ ∃ left place, d'.Opens p left place := by
  induction paths generalizing d with
  | nil => exact fun p mem => absurd mem List.not_mem_nil
  | cons p rest ih =>
    -- The first directory is there before the others are made, and stays.
    have first : ∀ {d₁ : Disk}, d₁.makeEach rest = (.ok (), d') → isSpellable p = true →
        (∃ left place, d₁.Opens p left place) →
        ∀ q ∈ p :: rest, isSpellable q = true ∧ ∃ left place, d'.Opens q left place := by
      intro d₁ made spellable opened q mem
      have grown : Grown (fun _ => True) d₁ (d₁.makeEach rest).2 :=
        grown_makeEach fun _ _ => trivial
      rw [made] at grown
      rcases List.mem_cons.1 mem with rfl | mem
      · obtain ⟨left, place, opens⟩ := opened
        exact ⟨spellable, left, place, opens.mono grown.cwd grown.kept⟩
      · exact ih made q mem
    rw [makeEach] at made
    cases one : d.makeDirectory p with
    | ok d₁ =>
      rw [one] at made
      obtain ⟨_, _, left, _, _, opens⟩ := opens_of_makeDirectory one
      exact first made (isSpellable_of_makeDirectory one) ⟨left, _, opens⟩
    | error fault =>
      rw [one] at made
      dsimp only at made
      split at made
      · rename_i there
        obtain ⟨spellable, opened⟩ := opens_of_isDirectory (Bool.and_eq_true_iff.1 there).2
        exact first made spellable opened
      · cases made

private theorem opens_of_makeFrom (made : d.makeFrom paths missing = (.ok (), d')) :
    ∀ p ∈ missing, isSpellable p = true ∧ ∃ left place, d'.Opens p left place := by
  induction paths generalizing missing with
  | nil => exact opens_of_makeEach made
  | cons p rest ih =>
    have ended := climbed d p rest missing
    rw [made] at ended
    generalize result_eq : (Except.ok (), d') = result at ended
    cases ended with
    | top => exact opens_of_makeEach result_eq.symm
    | made => exact opens_of_makeEach result_eq.symm
    | there => exact opens_of_makeEach result_eq.symm
    | wants => exact fun q mem => ih result_eq.symm q (List.mem_cons_of_mem _ mem)
    | refused => cases result_eq

/-- Directories that were made are there at the end of the path. -/
theorem opens_of_makeDirectories (made : d.makeDirectories p = (.ok (), d')) :
    isTop p = true ∧ d' = d ∨ isSpellable p = true ∧ ∃ left place, d'.Opens p left place := by
  obtain ⟨rest, above⟩ : ∃ rest, ancestors (p.bytes.length + 1) p = p :: rest := ⟨_, rfl⟩
  rw [makeDirectories_eq, above] at made
  have ended := climbed d p rest []
  rw [made] at ended
  generalize result_eq : (Except.ok (), d') = result at ended
  cases ended with
  | top top => exact .inl ⟨top, (Prod.mk.inj result_eq).2⟩
  | made one =>
    obtain ⟨_, _, left, _, _, opens⟩ := opens_of_makeDirectory one
    obtain rfl := (Prod.mk.inj result_eq).2
    exact .inr ⟨isSpellable_of_makeDirectory one, left, _, opens⟩
  | there there =>
    obtain rfl := (Prod.mk.inj result_eq).2
    exact .inr (opens_of_isDirectory there)
  | wants => exact .inr (opens_of_makeFrom result_eq.symm p List.mem_cons_self)
  | refused => cases result_eq

theorem isSpellable_of_makeDirectories (made : d.makeDirectories p = (.ok (), d')) :
    isSpellable p = true := by
  rcases opens_of_makeDirectories made with ⟨top, _⟩ | ⟨spellable, _⟩
  · exact isSpellable_of_top top
  · exact spellable

theorem reaches_of_makeDirectories (cwd : d.tree.find? d.cwd = some .directory)
    (made : d.makeDirectories p = (.ok (), d')) : ∃ place, d'.Reaches p place := by
  rcases opens_of_makeDirectories made with ⟨top, rfl⟩ | ⟨_, left, place, opens⟩
  · exact reaches_of_top top cwd
  · exact ⟨place, opens.reaches⟩

/-- A directory that is there need not be made. -/
theorem makeDirectories_there (sound : isTop p = true ∨ isSpellable p = true ∧ Fits p)
    (reaches : d.Reaches p place) : d.makeDirectories p = (.ok (), d) := by
  rw [makeDirectories_eq, ancestors, makeFrom_cons]
  by_cases top : isTop p = true
  · rw [if_pos top]
    rfl
  rw [if_neg top]
  obtain ⟨spellable, fits⟩ := sound.resolve_left top
  obtain ⟨left, led⟩ := reaches.led
  obtain ⟨stop, walked⟩ := led.walk_false
  have there : d.isDirectory p = true := Opens.isDirectory ⟨fits, led, reaches.housed⟩ spellable
  have taken : d.makeDirectory p = .error (.system .alreadyExists) := by
    rw [makeDirectory, if_pos spellable, walkSteps_of_fits fits, walked]
  rw [taken]
  simp [isThere, there, Fault.kind, SystemFault.kind, makeEach]

theorem sound_of_makeDirectories (made : d.makeDirectories p = (.ok (), d')) :
    isTop p = true ∨ isSpellable p = true ∧ Fits p := by
  rcases opens_of_makeDirectories made with ⟨top, _⟩ | ⟨spellable, _, _, opens⟩
  · exact .inl top
  · exact .inr ⟨spellable, opens.fits⟩

/-- Before a directory was made there is no way to what is in it, unless it was there already. -/
theorem lost_before (housing : d.tree.Housed) (cwd : d.tree.find? d.cwd = some .directory)
    {way : Path → Prop} (grown : Grown way d d') (reaches : d'.Reaches p place) :
    d.Reaches p place ∨ ∀ name, Usable name → Fits (p.entry name) → ∀ follow,
      d.walkSteps follow (p.entry name) (stepsOf (p.entry name)) = .error .notFound := by
  obtain ⟨left, led⟩ := reaches.led
  have begins : d.tree.find? (d.start p) = some .directory := by
    rw [start]
    split
    · rfl
    · exact cwd
  rw [start_of_cwd grown.cwd] at led
  have agree := begins.trans (grown.kept _ _ begins).symm
  by_cases there : ∃ left, d.tree.Leads maxLinks (d.start p) (stepsOf p) left place
  · left
    obtain ⟨left, led⟩ := there
    obtain ⟨node, found, _⟩ := led.arrives housing ⟨.directory, begins, by simp⟩
    have kept := grown.kept _ _ found
    rw [reaches.housed] at kept
    exact ⟨⟨left, led⟩, found.trans kept.symm⟩
  · right
    intro name usable fits follow
    rcases led.lost housing grown.kept agree with led | lost
    · exact absurd ⟨left, led⟩ there
    · rw [walkSteps_of_fits fits, start_of_isAbsolute (isAbsolute_entry usable p),
        stepsOf_entry usable]
      exact lost _ (by simp)

end Disk

end Files

end ModBench
