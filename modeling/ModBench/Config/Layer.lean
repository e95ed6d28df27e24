import ModBench.Config.Expand
import ModBench.Lint.Settings

/-!
Configuration layers.  A layer may set any of its keys; a layer on top wins for every key that it
sets.  From the merged values follow the paths that commands work with and the lint settings.
-/

set_option autoImplicit false
set_option relaxedAutoImplicit false

namespace ModBench

namespace Config

structure LintTable where
  debounce : Option Nat := none
  grammar : Option Grammar := none
  stream : Option OutputStream := none
  sourceExtension : Option String := none
  deriving DecidableEq, Repr, Inhabited

def LintTable.overlay (lower top : LintTable) : LintTable :=
  { debounce := top.debounce <|> lower.debounce,
    grammar := top.grammar <|> lower.grammar,
    stream := top.stream <|> lower.stream,
    sourceExtension := top.sourceExtension <|> lower.sourceExtension }

/-- The values that one file sets, or several files merged. -/
structure Layer where
  compilerPath : Option String := none
  scriptCachePath : Option String := none
  gameDir : Option String := none
  lint : Option LintTable := none
  deriving DecidableEq, Repr, Inhabited

namespace Layer

/-- The layer that sets nothing. -/
def empty : Layer := {}

/-- Two lint tables, of which either may be absent, laid over each other. -/
def overlayLint : Option LintTable → Option LintTable → Option LintTable
  | some lower, some top => some (lower.overlay top)
  | lower, top => top <|> lower

def overlay (lower top : Layer) : Layer :=
  { compilerPath := top.compilerPath <|> lower.compilerPath,
    scriptCachePath := top.scriptCachePath <|> lower.scriptCachePath,
    gameDir := top.gameDir <|> lower.gameDir,
    lint := overlayLint lower.lint top.lint }

def merge (layers : List Layer) : Layer :=
  layers.foldl overlay empty

def expandPath (env : Environment) (value : Option String) : Option Path :=
  match value with
  | none => none
  | some value =>
    let text := Text.trim (expand env value.toList)
    if text.isEmpty then none else some (.ofString (String.ofList text))

def compiler (env : Environment) (c : Layer) : Option Path :=
  expandPath env c.compilerPath

def game (env : Environment) (c : Layer) : Option Path :=
  expandPath env c.gameDir

/-- Where the compiled script blob lies in the game's directory. -/
def blobIn (game : Path) : Path :=
  ((game.child "r6").child "cache").child "final.redscripts.bk"

def scriptsIn (game : Path) : Path :=
  (game.child "r6").child "scripts"

/-- The compiled script blob: the one that is set, else the one of the game. -/
def blob (env : Environment) (c : Layer) : Option Path :=
  expandPath env c.scriptCachePath <|> (c.game env).map blobIn

def deploymentFolder (env : Environment) (c : Layer) : Except MissingSetting Path :=
  match c.game env with
  | some game => .ok (scriptsIn game)
  | none => .error .gameDir

/-- An extension without the dots in front of it; none if nothing is left. -/
def bareExtension (extension : String) : Option String :=
  let text := extension.toList.dropWhile fun c => c = '.'
  if text.isEmpty then none else some (String.ofList text)

def lintOptions (c : Layer) : LintOptions :=
  let table := c.lint.getD {}
  let defaults : LintOptions := {}
  { debounce := table.debounce.getD defaults.debounce,
    grammar := table.grammar.getD defaults.grammar,
    stream := table.stream,
    sourceExtension := (table.sourceExtension.bind bareExtension).getD defaults.sourceExtension }

def lintSettings (env : Environment) (c : Layer) : LintSettings :=
  { compiler := c.compiler env, blob := c.blob env, options := c.lintOptions }

end Layer

end Config

end ModBench
