import ModBench.Project.Fault

/-!
The layout of a mod.  A script of a mod lies in the folder `r6/scripts` of the mod's directory, and
that directory's name, which has to be text, is the name of the mod.
-/

set_option autoImplicit false
set_option relaxedAutoImplicit false

namespace ModBench

/-- Where the parts of a mod lie. -/
structure ModLayout where
  modDir : Path
  /-- The folder that goes into the game's folder. -/
  r6Dir : Path
  name : String
  deriving DecidableEq, Repr, Inhabited

namespace ModLayout

/-- The name of the folder that goes into the game's folder. -/
def r6Name : String := "r6"

def scriptsName : String := "scripts"

def parentNamed? (p : Path) (name : String) : Option Path :=
  match p.parent? with
  | some parent => if parent.endsWith (Path.ofString name) then some parent else none
  | none => none

def ofScript? (script : Path) : Option ModLayout :=
  match parentNamed? script scriptsName with
  | none => none
  | some scriptsDir =>
    match parentNamed? scriptsDir r6Name with
    | none => none
    | some r6Dir =>
      match r6Dir.parent? with
      | none => none
      | some modDir =>
        match modDir.fileName? with
        | none => none
        | some bytes =>
          match Text.decode? bytes with
          | none => none
          | some name => some ⟨modDir, r6Dir, name⟩

def ofScript (script : Path) : Except ProjectFault ModLayout :=
  match ofScript? script with
  | some layout => .ok layout
  | none => .error (.invalidLayout script)

def archive (l : ModLayout) : Path :=
  l.modDir.child (l.name ++ ".zip")

/-- Where something lies for a moment that stands in the way of the mod's archive. -/
def backup (l : ModLayout) : Path :=
  l.modDir.child (l.name ++ ".bak")

end ModLayout

end ModBench
