/-!
Settings that a command cannot do without.  They are asked for where they are used, so that a
configuration without them is still valid.
-/

set_option autoImplicit false
set_option relaxedAutoImplicit false

namespace ModBench

/-- A required setting that is absent. -/
inductive MissingSetting where
  | compilerPath
  | scriptCachePath
  | gameDir
  deriving DecidableEq, Repr, Inhabited

namespace MissingSetting

/-- The setting that the user has to provide. -/
def setting : MissingSetting → String
  | compilerPath => "compiler_path"
  | scriptCachePath => "script_cache_path"
  | gameDir => "game_dir"

/-- The text shown to the user. -/
def message : MissingSetting → String
  | compilerPath =>
    "redscript configuration missing: `compiler_path` is not set, consult the README"
  | scriptCachePath =>
    "redscript configuration missing: neither `script_cache_path` nor `game_dir` is set, " ++
      "consult the README"
  | gameDir => "redscript configuration missing: `game_dir` is not set, consult the README"

end MissingSetting

end ModBench
