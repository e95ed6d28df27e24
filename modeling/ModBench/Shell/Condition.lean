import ModBench.Files.Read
import ModBench.Shell.Arithmetic

/-!
Conditions on texts, numbers and files, as lists of words.
-/

set_option autoImplicit false
set_option relaxedAutoImplicit false

namespace ModBench.Shell

open Files (Disk Node)

/-- Whether something stands at a path that has a property. -/
def nodeHas (d : Disk) (p : String) (f : Node → Bool) : Bool :=
  ((d.status? (Path.ofString p)).map f).getD false

def isRegular : Node → Bool
  | .file _ => true
  | _ => false

/-- Whether a node holds anything. -/
def hasSize : Node → Bool
  | .file content => !content.data.isEmpty
  | _ => true

/-- Whether a link stands at a path. -/
def isLink (d : Disk) (p : String) : Bool :=
  match d.walkSteps false (Path.ofString p) (Files.stepsOf (Path.ofString p)) with
  | .ok (.node place) =>
    match d.tree.find? place with
    | some (.link _) => true
    | _ => false
  | _ => false

/-- A condition on one word; none for an unknown one. -/
def unary? (d : Disk) (op a : String) : Option Bool :=
  match op with
  | "-n" => some !a.isEmpty
  | "-z" => some a.isEmpty
  | "-e" => some (nodeHas d a fun _ => true)
  | "-r" => some (nodeHas d a fun _ => true)
  | "-w" => some (nodeHas d a fun _ => true)
  | "-x" => some (nodeHas d a fun n => n == .directory)
  | "-f" => some (nodeHas d a isRegular)
  | "-d" => some (nodeHas d a fun n => n == .directory)
  | "-s" => some (nodeHas d a hasSize)
  | "-h" => some (isLink d a)
  | "-L" => some (isLink d a)
  | "-t" => some false
  | _ => none

def wholeNumber? (s : String) : Option Int :=
  match s.trimAscii.toString.toList with
  | '-' :: digits => (Text.digits? digits).map fun n => -(n : Int)
  | '+' :: digits => (Text.digits? digits).map fun n => (n : Int)
  | digits => (Text.digits? digits).map fun n => (n : Int)

def compareNumbers (f : Int → Int → Bool) (a b : String) : Except String Bool :=
  match wholeNumber? a, wholeNumber? b with
  | some m, some n => .ok (f m n)
  | none, _ => .error a
  | _, none => .error b

/-- A condition on two words; none for an unknown one.  A fault is a word that is no number. -/
def binary? (op a b : String) : Option (Except String Bool) :=
  match op with
  | "=" => some (.ok (a == b))
  | "==" => some (.ok (a == b))
  | "!=" => some (.ok (a != b))
  | "<" => some (.ok (a < b))
  | ">" => some (.ok (b < a))
  | "-eq" => some (compareNumbers (fun m n => m == n) a b)
  | "-ne" => some (compareNumbers (fun m n => m != n) a b)
  | "-lt" => some (compareNumbers (fun m n => m < n) a b)
  | "-le" => some (compareNumbers (fun m n => m ≤ n) a b)
  | "-gt" => some (compareNumbers (fun m n => n < m) a b)
  | "-ge" => some (compareNumbers (fun m n => n ≤ m) a b)
  | _ => none

/-- Words before and after the first word of a kind that is neither first nor last. -/
def cutAt (word : String) (words : List String) : Option (List String × List String) :=
  let before := (words.drop 1).takeWhile fun w => w != word
  let rest := words.drop (before.length + 1)
  match words.head?, rest with
  | some first, _ :: after => if after.isEmpty then none else some (first :: before, after)
  | _, _ => none

/-- Whether a condition holds.  A fault is told in words. -/
def condition (d : Disk) : Nat → List String → Except String Bool
  | 0, _ => .error "too many arguments"
  | _ + 1, [] => .ok false
  | _ + 1, [a] => .ok !a.isEmpty
  | fuel + 1, words =>
    let compound : Except String Bool :=
      match cutAt "-o" words with
      | some (before, after) => do
        let a ← condition d fuel before
        let b ← condition d fuel after
        pure (a || b)
      | none =>
        match cutAt "-a" words with
        | some (before, after) => do
          let a ← condition d fuel before
          let b ← condition d fuel after
          pure (a && b)
        | none =>
          match words with
          | "!" :: rest => (condition d fuel rest).map not
          | "(" :: rest => if rest.getLast? = some ")" then condition d fuel rest.dropLast
            else .error "closing paren expected"
          | first :: _ => .error (first ++ ": unexpected operator")
          | [] => .ok false
    match words with
    | ["!", a] => .ok a.isEmpty
    | [op, a] =>
      match unary? d op a with
      | some b => .ok b
      | none => .error (op ++ ": unexpected operator")
    | [a, op, b] =>
      match binary? op a b with
      | some (.ok b) => .ok b
      | some (.error word) => .error ("Illegal number: " ++ word)
      | none => compound
    | _ => compound

end ModBench.Shell
