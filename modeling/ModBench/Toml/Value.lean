/-!
Values of TOML documents, and how the members of their tables are found and put in.
-/

set_option autoImplicit false
set_option relaxedAutoImplicit false

namespace ModBench.Toml

/-- How a table came into being, which decides who may still add to it. -/
inductive TableKind where
  /-- On the way to a table named by a header. -/
  | implied
  | headed
  /-- On the way to a key with dots in it. -/
  | dotted
  /-- Written between braces; nothing can be added later. -/
  | inlined
  deriving DecidableEq, Repr, Inhabited

/-- A value; the value of a float or of a date is not kept. -/
inductive Value where
  | string (text : String)
  | integer (value : Int)
  | float
  | boolean (value : Bool)
  | date
  | array (items : List Value)
  | table (kind : TableKind) (members : List (String × Value))
  /-- Tables of a repeated header, the newest first. -/
  | tables (items : List (List (String × Value)))
  deriving Repr, Inhabited

/-- Members of a table in the order in which they were put in. -/
abbrev Members := List (String × Value)

namespace Members

def find? (key : String) (members : Members) : Option Value :=
  (List.find? (fun m => m.1 == key) members).map Prod.snd

def replace (key : String) (value : Value) (members : Members) : Members :=
  members.map fun m => if m.1 == key then (m.1, value) else m

def add (key : String) (value : Value) (members : Members) : Members :=
  members ++ [(key, value)]

/-- Change the table that a header's keys lead to, making implied tables on the way. -/
def descend (f : Members → Option Members) : List String → Members → Option Members
  | [], members => f members
  | key :: keys, members =>
    match members.find? key with
    | none => (descend f keys []).map fun inner => members.add key (.table .implied inner)
    | some (.table .inlined _) => none
    | some (.table kind inner) =>
      (descend f keys inner).map fun inner => members.replace key (.table kind inner)
    | some (.tables (last :: older)) =>
      (descend f keys last).map fun last => members.replace key (.tables (last :: older))
    | some _ => none

/-- The table of a header, made or, where it was only implied, taken over. -/
def openTable (key : String) (members : Members) : Option Members :=
  match members.find? key with
  | none => some (members.add key (.table .headed []))
  | some (.table .implied inner) => some (members.replace key (.table .headed inner))
  | some _ => none

/-- One more table of a repeated header. -/
def openRepeated (key : String) (members : Members) : Option Members :=
  match members.find? key with
  | none => some (members.add key (.tables [[]]))
  | some (.tables items) => some (members.replace key (.tables ([] :: items)))
  | some _ => none

/-- A new key in the table that the keys before the last dot lead to.  That table is one made by
dotted keys, unless there is no dot. -/
def put (value : Value) (kind : TableKind) : List String → Members → Option Members
  | [], _ => none
  | [key], members =>
    if kind ≠ .dotted then none
    else if (members.find? key).isSome then none
    else some (members.add key value)
  | key :: keys, members =>
    match members.find? key with
    | none => (put value .dotted keys []).map fun inner => members.add key (.table .dotted inner)
    | some (.table .dotted inner) =>
      (put value .dotted keys inner).map fun inner => members.replace key (.table .dotted inner)
    | some (.table .implied inner) =>
      (put value .implied keys inner).map fun inner => members.replace key (.table .implied inner)
    | some _ => none

/-- A new key in a table; the key may have dots in it. -/
def putKey (value : Value) (keys : List String) (members : Members) : Option Members :=
  put value .dotted keys members

end Members

end ModBench.Toml
