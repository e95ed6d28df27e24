import ModBench.Text.Split
import ModBench.Text.Utf8

/-!
Paths.  A path is a string of bytes, not all of which are text; it is held as it was spelled, and
compared through its components: repeated slashes, a trailing slash and every inner `.` leave the
components as they are, while `..` is a component of its own.  The order on paths is the order on
their component lists.
-/

set_option autoImplicit false
set_option relaxedAutoImplicit false

namespace ModBench

/-- A path, held as it was spelled. -/
structure Path where
  bytes : List UInt8
  deriving DecidableEq, Repr, Inhabited

/-- A step of a path: the root, a leading `.`, `..`, or a name. -/
inductive Component where
  | root
  | here
  | up
  | name (bytes : List UInt8)
  deriving DecidableEq, Repr, Inhabited

/-- The byte between the names of a path. -/
def slash : UInt8 := 0x2f

/-- The byte that `.` and `..` are made of, and that comes before an extension. -/
def dot : UInt8 := 0x2e

@[simp] theorem dot_ne_slash : dot ≠ slash := by decide

@[simp] theorem zero_ne_slash : 0 ≠ slash := by decide

namespace Component

/-- The kinds of components in their order. -/
def rank : Component → Nat
  | root => 0
  | here => 1
  | up => 2
  | name _ => 3

def nameBytes : Component → List UInt8
  | name bytes => bytes
  | _ => []

/-- How the component is written between slashes. -/
def bytes : Component → List UInt8
  | root => [slash]
  | here => [dot]
  | up => [dot, dot]
  | name bytes => bytes

/-- Order of byte lists, byte by byte and then by length. -/
def compareBytes : List UInt8 → List UInt8 → Ordering
  | [], [] => .eq
  | [], _ :: _ => .lt
  | _ :: _, [] => .gt
  | a :: as, b :: bs =>
    if a.toNat < b.toNat then .lt
    else if b.toNat < a.toNat then .gt
    else compareBytes as bs

/-- Order of components: by kind, names among each other by their bytes. -/
def compare (a b : Component) : Ordering :=
  if a.rank < b.rank then .lt
  else if b.rank < a.rank then .gt
  else compareBytes a.nameBytes b.nameBytes

/-- Order of component lists: the first difference decides, and a proper beginning comes first. -/
def compareLists : List Component → List Component → Ordering
  | [], [] => .eq
  | [], _ :: _ => .lt
  | _ :: _, [] => .gt
  | a :: as, b :: bs =>
    match compare a b with
    | .eq => compareLists as bs
    | decided => decided

end Component

namespace Path

def ofString (s : String) : Path :=
  ⟨Text.encodeString s⟩

/-- The path as it is shown, with U+FFFD for all in it that is not text. -/
def toString (p : Path) : String :=
  Text.decodeLossy p.bytes

instance : ToString Path := ⟨toString⟩

/-- The path as a text, if it is one. -/
def text? (p : Path) : Option String :=
  Text.decode? p.bytes

def empty : Path := ⟨[]⟩

/-- Whether the path starts at the root. -/
def isAbsolute (p : Path) : Bool :=
  p.bytes.head? == some slash

/-- What a stretch between slashes contributes: nothing when it is empty or a single dot. -/
def componentOf (piece : List UInt8) : Option Component :=
  if piece = [] ∨ piece = [dot] then none
  else if piece = [dot, dot] then some .up
  else some (.name piece)

/-- The start of a path that counts by itself: a slash, a leading dot, or nothing. -/
inductive Start where
  | slash
  | dot
  | nothing
  deriving DecidableEq, Repr

def Start.bytes : Start → List UInt8
  | slash => [ModBench.slash]
  | dot => [ModBench.dot]
  | nothing => []

def Start.components : Start → List Component
  | slash => [.root]
  | dot => [.here]
  | nothing => []

def cutStart : List UInt8 → Start × List UInt8
  | [] => (.nothing, [])
  | b :: rest =>
    if b = slash then (.slash, rest)
    else if b = dot ∧ (rest = [] ∨ rest.head? = some slash) then (.dot, rest)
    else (.nothing, b :: rest)

def components (p : Path) : List Component :=
  let (start, body) := cutStart p.bytes
  start.components ++ (Text.split slash body).filterMap componentOf

def compare (a b : Path) : Ordering :=
  Component.compareLists a.components b.components

/-- Whether two paths have the same components. -/
def same (a b : Path) : Bool :=
  a.components == b.components

/-- `p` itself when it is absolute, else `p` below `base`. -/
def join (base p : Path) : Path :=
  if p.isAbsolute then p
  else if base.bytes.isEmpty || base.bytes.getLast? == some slash then ⟨base.bytes ++ p.bytes⟩
  else ⟨base.bytes ++ slash :: p.bytes⟩

/-- What has a name in a directory. -/
def entry (base : Path) (name : List UInt8) : Path :=
  base.join ⟨name⟩

/-- What has a text as its name in a directory. -/
def child (base : Path) (name : String) : Path :=
  base.entry (Text.encodeString name)

/-- Whether the components of `start` begin those of `p`. -/
def startsWith (p start : Path) : Bool :=
  start.components.isPrefixOf p.components

/-- Whether the components of `tail` end those of `p`. -/
def endsWith (p tail : Path) : Bool :=
  tail.components.isSuffixOf p.components

/-- Stretches without the last ones that contribute no component. -/
def dropEmptyEnd : List (List UInt8) → List (List UInt8)
  | [] => []
  | piece :: rest =>
    match dropEmptyEnd rest with
    | [] => if (componentOf piece).isNone then [] else [piece]
    | kept => piece :: kept

/-- The path without its last component, as spelled up to there; none for the root and for the
empty path. -/
def parent? (p : Path) : Option Path :=
  let (start, body) := cutStart p.bytes
  match dropEmptyEnd (Text.split slash body), start with
  | [], .slash => none
  | [], .dot => some empty
  | [], .nothing => none
  | pieces, _ => some ⟨start.bytes ++ Text.join slash (dropEmptyEnd pieces.dropLast)⟩

/-- The last component when it is a name. -/
def fileName? (p : Path) : Option (List UInt8) :=
  match p.components.getLast? with
  | some (.name bytes) => some bytes
  | _ => none

theorem fileName?_eq_some_iff {p : Path} {name : List UInt8} :
    p.fileName? = some name ↔ p.components.getLast? = some (.name name) := by
  unfold fileName?
  cases p.components.getLast? with
  | none => simp
  | some last => cases last <;> simp

/-- A name cut at its last dot: what stands before it and after it; none without a dot. -/
def cutLastDot : List UInt8 → Option (List UInt8 × List UInt8)
  | [] => none
  | b :: rest =>
    match cutLastDot rest with
    | some (before, after) => some (b :: before, after)
    | none => if b = dot then some ([], rest) else none

/-- The part of the file name after its last dot, unless that dot comes first. -/
def extension? (p : Path) : Option (List UInt8) :=
  match p.fileName? with
  | some name =>
    match cutLastDot name with
    | some ([], _) => none
    | some (_, after) => some after
    | none => none
  | none => none

/-- The lower-case form of an ASCII letter; any other byte is itself. -/
def lowerByte (b : UInt8) : UInt8 :=
  if 0x41 ≤ b ∧ b ≤ 0x5a then b + 0x20 else b

def agreeUpToCase (a b : List UInt8) : Bool :=
  a.map lowerByte == b.map lowerByte

/-- Whether the path's extension is the given one, up to the case of ASCII letters. -/
def hasExtension (p : Path) (wanted : String) : Bool :=
  match p.extension? with
  | some found => agreeUpToCase found (Text.encodeString wanted)
  | none => false

example : (ofString "/ws//a/./b/").same (ofString "/ws/a/b") = true := by decide

example : (ofString "a//b").parent? = some (ofString "a") := by decide

example : (ofString "./a").parent? = some (ofString ".") := by decide

end Path

end ModBench
