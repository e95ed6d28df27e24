import ModBench.Config.Layer
import ModBench.Toml.Document

/-!
Configuration layers in TOML.  Keys that are not known are passed over; a known key must have a
value of its type.
-/

set_option autoImplicit false
set_option relaxedAutoImplicit false

namespace ModBench.Config

open Toml (Value Members)

/-- A key's value read by `f`, none for a key that is not set; nothing for a value that `f`
refuses. -/
def optional {α : Type} (f : Value → Option α) : Option Value → Option (Option α)
  | none => some none
  | some value => (f value).map some

def stringOf? : Value → Option String
  | .string s => some s
  | _ => none

/-- An integer of 64 bits without sign. -/
def word64Of? : Value → Option Nat
  | .integer n => if 0 ≤ n ∧ n < 0x10000000000000000 then some n.toNat else none
  | _ => none

def isHollow : Value → Bool
  | .array [] => true
  | .table _ [] => true
  | _ => false

/-- One of several words: as a string, or as the only key of a table with a hollow value. -/
def wordOf? {α : Type} (words : List (String × α)) : Value → Option α
  | .string s => (words.find? fun w => w.1 == s).map Prod.snd
  | .table _ [(s, value)] =>
    if isHollow value then (words.find? fun w => w.1 == s).map Prod.snd else none
  | _ => none

def grammarOf? : Value → Option Grammar :=
  wordOf? [("tagged", .tagged), ("legacy", .legacy)]

def streamOf? : Value → Option OutputStream :=
  wordOf? [("stdout", .stdout), ("stderr", .stderr)]

def lintTableOf? (debounce grammar stream sourceExtension : Option Value) : Option LintTable :=
  match optional word64Of? debounce, optional grammarOf? grammar, optional streamOf? stream,
      optional stringOf? sourceExtension with
  | some debounce, some grammar, some stream, some sourceExtension =>
    some ⟨debounce, grammar, stream, sourceExtension⟩
  | _, _, _, _ => none

/-- A lint table: a table, or its four values in an array.  A date counts as a table without known
keys. -/
def lintOf? : Value → Option LintTable
  | .table _ members =>
    lintTableOf? (Members.find? "debounce_ms" members) (Members.find? "grammar" members)
      (Members.find? "stream" members) (Members.find? "source_extension" members)
  | .array (debounce :: grammar :: stream :: sourceExtension :: _) =>
    lintTableOf? (some debounce) (some grammar) (some stream) (some sourceExtension)
  | .date => some {}
  | _ => none

def layerOf? (members : Members) : Option Layer :=
  match optional stringOf? (members.find? "compiler_path"),
      optional stringOf? (members.find? "script_cache_path"),
      optional stringOf? (members.find? "game_dir"), optional lintOf? (members.find? "lint") with
  | some compilerPath, some scriptCachePath, some gameDir, some lint =>
    some ⟨compilerPath, scriptCachePath, gameDir, lint⟩
  | _, _, _, _ => none

def parse? (text : String) : Option Layer :=
  (Toml.parse? text).bind layerOf?

end ModBench.Config
