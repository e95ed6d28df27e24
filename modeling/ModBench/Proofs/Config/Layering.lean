import ModBench.Config.Load
import ModBench.Proofs.Path.Extension
import ModBench.Proofs.Path.Spelling
import ModBench.Proofs.Text.Tokens

/-!
Layers of configuration.  Laying layers over each other gives each key, and each key of the lint
table by itself, the value of the highest layer that sets it.  What commands work with follows from
the merged values: paths once they are expanded and trimmed, the blob from the game's directory when
it is not set, and which documents are linted.
-/

set_option autoImplicit false
set_option relaxedAutoImplicit false

namespace ModBench.Config

/-! ### Merged values -/

/-- The value of a key in layers of which each lies on top of those before it: that of the highest
layer that sets the key. -/
inductive Resolves {α : Type} (key : Layer → Option α) (layers : List Layer) : Option α → Prop
  | unset (absent : ∀ layer ∈ layers, key layer = none) : Resolves key layers none
  | set {below above : List Layer} {layer : Layer} {value : α}
      (cut : layers = below ++ layer :: above) (sets : key layer = some value)
      (absent : ∀ higher ∈ above, key higher = none) : Resolves key layers (some value)

/-- A key of the lint table. -/
def inTable {α : Type} (field : LintTable → Option α) (layer : Layer) : Option α :=
  layer.lint.bind field

/-- Each key has the value of the highest layer that sets it. -/
structure KeyByKey (layers : List Layer) (merged : Layer) : Prop where
  compiler : Resolves Layer.compilerPath layers merged.compilerPath
  scriptCache : Resolves Layer.scriptCachePath layers merged.scriptCachePath
  game : Resolves Layer.gameDir layers merged.gameDir
  debounce : Resolves (inTable LintTable.debounce) layers (inTable LintTable.debounce merged)
  grammar : Resolves (inTable LintTable.grammar) layers (inTable LintTable.grammar merged)
  stream : Resolves (inTable LintTable.stream) layers (inTable LintTable.stream merged)
  extension : Resolves (inTable LintTable.sourceExtension) layers
    (inTable LintTable.sourceExtension merged)
  table : merged.lint = none ↔ ∀ layer ∈ layers, layer.lint = none

/-! ### What commands work with -/

/-- The path that a value stands for: what remains of it once it is expanded and trimmed.  A value
of which nothing remains counts as not set. -/
inductive PathValue (env : Environment) : Option String → Option Path → Prop
  | unset : PathValue env none none
  | blank {value : String} (trimmed : Text.IsTrimmed (expand env value.toList) []) :
      PathValue env (some value) none
  | path {value : String} {text : List Char}
      (trimmed : Text.IsTrimmed (expand env value.toList) text) (visible : text ≠ []) :
      PathValue env (some value) (some ⟨Text.encode text⟩)

/-- The blob of a command: the one that is set, else the one in the game's directory. -/
inductive Blob : Option Path → Option Path → Path → Prop
  | set (blob : Path) (game : Option Path) : Blob (some blob) game blob
  | ofGame (game : Path) :
      Blob none (some game) (game.join (.ofString "r6/cache/final.redscripts.bk"))

/-- The extension of the documents that are linted: the one that is set, without the dots in front
of it, or `reds` when nothing is left. -/
inductive Wanted : Option String → List Char → Prop
  | unset : Wanted none "reds".toList
  | dotted {setting : String} (dots : ∀ c ∈ setting.toList, c = '.') :
      Wanted (some setting) "reds".toList
  | set {setting : String} {front bare : List Char} (cut : setting.toList = front ++ bare)
      (dots : ∀ c ∈ front, c = '.') (visible : bare ≠ []) (begins : ∀ c ∈ bare.head?, c ≠ '.') :
      Wanted (some setting) bare

/-- What a configuration means for commands, by the paths that its values stand for: the compiler
`c`, the blob `s` and the game's directory `g`. -/
structure Effects (env : Environment) (config : Layer) (c s g : Option Path) : Prop where
  noCompiler (source : Path) (root : Option Path) :
    (config.lintSettings env).lintCommand source root = .error .compilerPath ↔ c = none
  noBlob (source : Path) (root : Option Path) :
    (config.lintSettings env).lintCommand source root = .error .scriptCachePath ↔
      c ≠ none ∧ s = none ∧ g = none
  command (source : Path) (root : Option Path) (command : CommandLine) :
    (config.lintSettings env).lintCommand source root = .ok command ↔
      ∃ compiler blob, c = some compiler ∧ Blob s g blob ∧
        command = ⟨compiler, [.ofString "lint", .ofString "-s", source, .ofString "-b", blob], root⟩
  noFolder (missing : MissingSetting) :
    config.deploymentFolder env = .error missing ↔ g = none ∧ missing = .gameDir
  folder (folder : Path) : config.deploymentFolder env = .ok folder ↔
    ∃ game, g = some game ∧ folder = game.join (.ofString "r6/scripts")
  eligible (document : Path) : (config.lintSettings env).isEligible document = true ↔
    ∃ wanted found, Wanted (inTable LintTable.sourceExtension config) wanted ∧
      document.EndsIn found ∧ Path.AgreeUpToCase found (Text.encode wanted)

/-! ### Laying over -/

private theorem LintTable.overlay_assoc (a b c : LintTable) :
    (a.overlay b).overlay c = a.overlay (b.overlay c) := by
  simp [overlay, Option.or_assoc]

namespace Layer

private theorem overlay_assoc (a b c : Layer) :
    (a.overlay b).overlay c = a.overlay (b.overlay c) := by
  have tables : overlayLint (overlayLint a.lint b.lint) c.lint =
      overlayLint a.lint (overlayLint b.lint c.lint) := by
    cases a.lint <;> cases b.lint <;> cases c.lint <;>
      simp [overlayLint, LintTable.overlay_assoc]
  simp [overlay, tables, Option.or_assoc]

theorem empty_overlay (c : Layer) : empty.overlay c = c := by
  simp [overlay, empty, overlayLint]

private theorem overlay_empty (c : Layer) : c.overlay empty = c := by
  simp [overlay, empty, overlayLint]

private theorem merge_concat (below : List Layer) (top : Layer) :
    merge (below ++ [top]) = (merge below).overlay top :=
  List.foldl_concat overlay empty top below

end Layer

/-! ### Keys -/

/-- What makes a reading of layers a key: it is not set in the empty layer, and of two layers the
upper one decides when it sets the key. -/
structure IsKey {α : Type} (key : Layer → Option α) : Prop where
  empty : key .empty = none
  overlay (lower top : Layer) : key (lower.overlay top) = (key top).or (key lower)

private theorem isKey_compilerPath : IsKey Layer.compilerPath :=
  ⟨rfl, fun _ _ => by simp [Layer.overlay]⟩

private theorem isKey_scriptCachePath : IsKey Layer.scriptCachePath :=
  ⟨rfl, fun _ _ => by simp [Layer.overlay]⟩

private theorem isKey_gameDir : IsKey Layer.gameDir := ⟨rfl, fun _ _ => by simp [Layer.overlay]⟩

/-- A table on top hides no key of the table below that it does not set itself. -/
theorem isKey_inTable {α : Type} {field : LintTable → Option α}
    (overlay : ∀ lower top, field (lower.overlay top) = (field top).or (field lower)) :
    IsKey (inTable field) where
  empty := rfl
  overlay lower top := by
    unfold inTable Layer.overlay
    cases lower.lint with
    | none => cases top.lint <;> simp [Layer.overlayLint]
    | some below =>
      cases top.lint with
      | none => simp [Layer.overlayLint]
      | some above => exact overlay below above

private theorem Resolves.concat {α : Type} {key : Layer → Option α} {layers : List Layer}
    {value : Option α} {top : Layer} (resolves : Resolves key layers value)
    (absent : key top = none) : Resolves key (layers ++ [top]) value := by
  cases resolves with
  | unset absents =>
    exact .unset (List.forall_mem_append.2 ⟨absents, List.forall_mem_singleton.2 absent⟩)
  | @set below above layer value cut sets absents =>
    have cut' : layers ++ [top] = below ++ layer :: (above ++ [top]) := by
      rw [cut, List.append_assoc, List.cons_append]
    exact .set cut' sets
      (List.forall_mem_append.2 ⟨absents, List.forall_mem_singleton.2 absent⟩)

theorem IsKey.resolves {α : Type} {key : Layer → Option α} (isKey : IsKey key)
    (layers : List Layer) : Resolves key layers (key (.merge layers)) := by
  induction layers using List.reverseRecOn with
  | nil =>
    have unset : key (.merge []) = none := isKey.empty
    rw [unset]
    exact .unset (by simp)
  | append_singleton below top ih =>
    rw [Layer.merge_concat, isKey.overlay]
    cases sets : key top with
    | none => exact ih.concat sets
    | some value =>
      have cut : below ++ [top] = below ++ top :: [] := rfl
      exact .set cut sets (by simp)

private theorem Resolves.eq_none_iff {α : Type} {key : Layer → Option α} {layers : List Layer}
    {value : Option α} (resolves : Resolves key layers value) :
    value = none ↔ ∀ layer ∈ layers, key layer = none := by
  cases resolves with
  | unset absent => exact iff_of_true rfl absent
  | @set below above layer value cut sets absent =>
    refine iff_of_false (Option.some_ne_none value) fun absents => ?_
    have mem : layer ∈ layers := by simp [cut]
    rw [absents layer mem] at sets
    cases sets

private theorem merge_lint_eq_none_iff (layers : List Layer) :
    (Layer.merge layers).lint = none ↔ ∀ layer ∈ layers, layer.lint = none := by
  -- Whether there is a table is a key too.
  have present : IsKey (inTable fun _ => some ()) := isKey_inTable fun _ _ => rfl
  have absent_iff (layer : Layer) : inTable (fun _ => some ()) layer = none ↔
      layer.lint = none := by
    rw [inTable]
    cases layer.lint <;> simp
  simpa only [absent_iff] using (present.resolves layers).eq_none_iff

private theorem keyByKey_merge (layers : List Layer) : KeyByKey layers (.merge layers) where
  compiler := isKey_compilerPath.resolves layers
  scriptCache := isKey_scriptCachePath.resolves layers
  game := isKey_gameDir.resolves layers
  debounce := (isKey_inTable fun _ _ => by simp [LintTable.overlay]).resolves layers
  grammar := (isKey_inTable fun _ _ => by simp [LintTable.overlay]).resolves layers
  stream := (isKey_inTable fun _ _ => by simp [LintTable.overlay]).resolves layers
  extension := (isKey_inTable fun _ _ => by simp [LintTable.overlay]).resolves layers
  table := merge_lint_eq_none_iff layers

/-! ### Paths -/

private theorem pathValue_iff {env : Environment} {value : Option String} {p : Option Path} :
    PathValue env value p ↔ p = Layer.expandPath env value := by
  constructor
  · rintro (_ | trimmed | ⟨trimmed, visible⟩)
    · rfl
    · rw [Layer.expandPath, Text.trim_eq_iff.2 trimmed]
      rfl
    · dsimp only [Layer.expandPath]
      rw [Text.trim_eq_iff.2 trimmed, if_neg (by simpa using visible), Path.ofString,
      Text.encodeString, String.toList_ofList]
  · rintro rfl
    cases value with
    | none => exact .unset
    | some value =>
      unfold Layer.expandPath
      dsimp only
      split
      · rename_i blank
        exact .blank (Text.trim_eq_iff.1 (List.isEmpty_iff.1 blank))
      · rename_i visible
        rw [Path.ofString, Text.encodeString, String.toList_ofList]
        exact .path (Text.trim_eq_iff.1 rfl) (by simpa using visible)

private theorem blobIn_eq (game : Path) :
    Layer.blobIn game = game.join (.ofString "r6/cache/final.redscripts.bk") := by
  simp only [Layer.blobIn, Path.child, Path.entry, Path.join_assoc]
  rfl

private theorem scriptsIn_eq (game : Path) :
    Layer.scriptsIn game = game.join (.ofString "r6/scripts") := by
  simp only [Layer.scriptsIn, Path.child, Path.entry, Path.join_assoc]
  rfl

private theorem blob_iff {s g : Option Path} {blob : Path} :
    Blob s g blob ↔ (s <|> g.map Layer.blobIn) = some blob := by
  constructor
  · rintro (_ | _)
    · rfl
    · exact congrArg some (blobIn_eq _)
  · intro found
    cases s with
    | some s =>
      obtain rfl : s = blob := Option.some.inj found
      exact .set s g
    | none =>
      obtain ⟨game, rfl, rfl⟩ := Option.map_eq_some_iff.1 found
      rw [blobIn_eq]
      exact .ofGame game

/-! ### Extensions -/

private theorem bareExtension_eq_none_iff {setting : String} :
    Layer.bareExtension setting = none ↔ ∀ c ∈ setting.toList, c = '.' := by
  simp [Layer.bareExtension, List.dropWhile_eq_nil_iff]

private theorem bareExtension_eq_some_iff {setting : String} {bare : String} :
    Layer.bareExtension setting = some bare ↔ ∃ front, setting.toList = front ++ bare.toList ∧
      (∀ c ∈ front, c = '.') ∧ bare.toList ≠ [] ∧ ∀ c ∈ bare.toList.head?, c ≠ '.' := by
  unfold Layer.bareExtension
  dsimp only
  constructor
  · intro found
    split at found
    · cases found
    · rename_i visible
      obtain ⟨front, cut, dots, begins⟩ :=
        Text.exists_dropWhile (fun c => decide (c = '.')) setting.toList
      obtain rfl := Option.some.inj found
      rw [String.toList_ofList]
      exact ⟨front, cut, fun c mem => of_decide_eq_true (dots c mem), by simpa using visible,
        fun c first => of_decide_eq_false (begins c first)⟩
  · rintro ⟨front, cut, dots, visible, begins⟩
    have dropped : setting.toList.dropWhile (fun c => decide (c = '.')) = bare.toList := by
      rw [cut]
      exact Text.dropWhile_append_of_head (fun c mem => decide_eq_true (dots c mem))
        fun c first => decide_eq_false (begins c first)
    rw [dropped, if_neg (by simpa using visible), String.ofList_toList]

/-- There is one extension that is wanted, and it is the one that documents are compared with. -/
private theorem wanted_iff {setting : Option String} {wanted : List Char} : Wanted setting wanted ↔
    wanted = ((setting.bind Layer.bareExtension).getD "reds").toList := by
  constructor
  · rintro (_ | dots | ⟨cut, dots, visible, begins⟩)
    · rfl
    · rw [Option.bind_some, bareExtension_eq_none_iff.2 dots]
      rfl
    · rw [← String.toList_ofList (l := wanted)] at cut visible begins
      rw [Option.bind_some, bareExtension_eq_some_iff.2 ⟨_, cut, dots, visible, begins⟩,
        Option.getD_some, String.toList_ofList]
  · rintro rfl
    cases setting with
    | none => exact .unset
    | some setting =>
      rw [Option.bind_some]
      cases found : Layer.bareExtension setting with
      | none => exact .dotted (bareExtension_eq_none_iff.1 found)
      | some bare =>
        obtain ⟨front, cut, dots, visible, begins⟩ := bareExtension_eq_some_iff.1 found
        exact .set cut dots visible begins

private theorem sourceExtension_lintOptions (config : Layer) : config.lintOptions.sourceExtension =
    ((inTable LintTable.sourceExtension config).bind Layer.bareExtension).getD "reds" := by
  rw [Layer.lintOptions, inTable]
  cases config.lint <;> rfl

/-! ### Commands -/

/-- The command of a configuration, by its compiler and its blob. -/
private theorem lintCommand_eq_ok_iff {settings : LintSettings} {source : Path} {root : Option Path}
    {command : CommandLine} : settings.lintCommand source root = .ok command ↔
      ∃ compiler blob, settings.compiler = some compiler ∧ settings.blob = some blob ∧
        command = ⟨compiler, [.ofString "lint", .ofString "-s", source, .ofString "-b", blob],
          root⟩ := by
  rw [LintSettings.lintCommand]
  cases settings.compiler with
  | none => simp
  | some compiler => cases settings.blob <;> simp [eq_comm]

private theorem lintCommand_eq_error_iff {settings : LintSettings} {source : Path}
    {root : Option Path} {missing : MissingSetting} :
    settings.lintCommand source root = .error missing ↔
      (settings.compiler = none ∧ missing = .compilerPath) ∨
        (settings.compiler ≠ none ∧ settings.blob = none ∧ missing = .scriptCachePath) := by
  rw [LintSettings.lintCommand]
  cases settings.compiler with
  | none => simp [eq_comm]
  | some compiler => cases settings.blob <;> simp [eq_comm]

private theorem effects (env : Environment) (config : Layer) : Effects env config
    (Layer.expandPath env config.compilerPath) (Layer.expandPath env config.scriptCachePath)
    (Layer.expandPath env config.gameDir) where
  noCompiler source root := by
    simp [lintCommand_eq_error_iff, Layer.lintSettings, Layer.compiler]
  noBlob source root := by
    simp [lintCommand_eq_error_iff, Layer.lintSettings, Layer.compiler, Layer.blob, Layer.game]
  command source root command := by
    simp only [lintCommand_eq_ok_iff, blob_iff]
    rfl
  noFolder missing := by
    rw [Layer.deploymentFolder, Layer.game]
    cases Layer.expandPath env config.gameDir <;> simp [eq_comm]
  folder folder := by
    rw [Layer.deploymentFolder, Layer.game]
    cases Layer.expandPath env config.gameDir <;> simp [scriptsIn_eq, eq_comm]
  eligible document := by
    rw [LintSettings.isEligible, Path.hasExtension_iff]
    have wanted : (config.lintSettings env).options.sourceExtension = _ :=
      sourceExtension_lintOptions config
    rw [wanted]
    simp only [wanted_iff, exists_eq_left, exists_and_left, Text.encodeString]

/-! ### Files -/

/-- What is loaded are two layers merged, and loading fails only when one of them cannot be had. -/
private theorem load_eq_ok_iff {d : Files.Disk} {user workspace : Option Path} {loaded : Layer} :
    load d user workspace = .ok loaded ↔ ∃ lower top, loadOptional d user = .ok lower ∧
      loadOptional d (workspace.map fun root => root.child workspaceFileName) = .ok top ∧
      loaded = .merge [lower, top] := by
  have merged (lower top : Layer) : Layer.merge [lower, top] = lower.overlay top := by
    rw [Layer.merge, List.foldl_cons, List.foldl_cons, List.foldl_nil, Layer.empty_overlay]
  rw [load]
  cases loadOptional d user with
  | error fault => simp
  | ok lower =>
    cases loadOptional d (workspace.map fun root => root.child workspaceFileName) with
    | error fault => simp
    | ok top => simp [merged, eq_comm]

/-- Layers are laid over each other key by key: in any grouping, with the empty layer changing
nothing, each key gets the value of the highest layer that sets it.  What is loaded is the user's
layer below the workspace's, and what commands work with follows from the merged values alone. -/
theorem layers_resolve_key_by_key :
    (∀ a b c : Layer, (a.overlay b).overlay c = a.overlay (b.overlay c)) ∧
    (∀ c : Layer, Layer.empty.overlay c = c ∧ c.overlay .empty = c) ∧
    (∀ (d : Files.Disk) (user workspace : Option Path) (loaded : Layer),
      load d user workspace = .ok loaded ↔ ∃ lower top, loadOptional d user = .ok lower ∧
        loadOptional d (workspace.map fun root => root.child workspaceFileName) = .ok top ∧
        loaded = .merge [lower, top]) ∧
    ∀ layers : List Layer, KeyByKey layers (.merge layers) ∧ ∀ env : Environment, ∃ c s g,
      (∀ p, PathValue env (Layer.merge layers).compilerPath p ↔ p = c) ∧
      (∀ p, PathValue env (Layer.merge layers).scriptCachePath p ↔ p = s) ∧
      (∀ p, PathValue env (Layer.merge layers).gameDir p ↔ p = g) ∧
      Effects env (.merge layers) c s g := by
  refine ⟨Layer.overlay_assoc, fun c => ⟨Layer.empty_overlay c, Layer.overlay_empty c⟩,
    fun _ _ _ _ => load_eq_ok_iff, fun layers => ⟨keyByKey_merge layers, fun env => ?_⟩⟩
  exact ⟨_, _, _, fun _ => pathValue_iff, fun _ => pathValue_iff, fun _ => pathValue_iff,
    effects env _⟩

/-- The table on top hides nothing of the one below, and a blob that expands to nothing is taken
from the game's directory. -/
example :
    let user : Layer :=
      { scriptCachePath := some "$\x7bBLOB\x7d", gameDir := some " /g/ ",
        lint := some { grammar := some .legacy, sourceExtension := some "swift" } }
    let workspace : Layer := { lint := some { sourceExtension := some "..Reds" } }
    let merged := Layer.merge [user, workspace]
    merged.lintOptions = { grammar := .legacy, sourceExtension := "Reds" } ∧
      merged.blob (fun _ => none) = some (.ofString "/g/r6/cache/final.redscripts.bk") := by
  decide +kernel

end ModBench.Config
