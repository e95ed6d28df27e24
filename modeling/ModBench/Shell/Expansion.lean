import ModBench.Shell.Arithmetic
import ModBench.Shell.Pattern
import ModBench.Shell.Reader
import ModBench.Shell.State

/-!
What words stand for.  A word becomes marked characters; those that came out of an unquoted
substitution are cut into fields, and fields with patterns in them become the paths that match.
-/

set_option autoImplicit false
set_option relaxedAutoImplicit false

namespace ModBench.Shell

open Files (Disk)

/-- Where a character of a field came from. -/
inductive Origin where
  | written
  | quoted
  | substituted
  deriving DecidableEq, Repr, Inhabited

/-- A part of what a word stands for. -/
inductive Mark where
  | char (c : Char) (origin : Origin)
  /-- There is a field here, even if it stays empty. -/
  | presence
  /-- One field ends here and another one begins. -/
  | cut
  deriving DecidableEq, Repr, Inhabited

/-- Runs a script and gives what it wrote. -/
abbrev Substitution := List Char → State → List UInt8 × State

def marksOf (origin : Origin) (text : List Char) : List Mark :=
  text.map fun c => .char c origin

def quotable (isQuoted : Bool) (text : List Char) : List Mark :=
  if isQuoted then .presence :: marksOf .quoted text else marksOf .substituted text

def textOfMarks (marks : List Mark) : List Char :=
  marks.filterMap fun
    | .char c _ => some c
    | .cut => some ' '
    | .presence => none

/-- The characters of marks, each with whether it is quoted. -/
def patternOfMarks (marks : List Mark) : Pattern :=
  Pattern.ofMarked (marks.filterMap fun
    | .char c origin => some (c, origin == .quoted)
    | .cut => some (' ', true)
    | .presence => none)

/-- The number under which the shell runs. -/
def processNumber : String := "4242"

def parameterValue? (st : State) : Parameter → Option String
  | .variable name => st.valueOf? name
  | .position 0 => some st.name
  | .position (n + 1) => st.args[n]?
  | .count => some (toString st.args.length)
  | .all => if st.args.isEmpty then none else some (" ".intercalate st.args)
  | .joined => if st.args.isEmpty then none else some (" ".intercalate st.args)
  | .status => some (toString st.status)
  | .process => some processNumber

/-- The arguments as fields of their own. -/
def argumentMarks (isQuoted : Bool) (args : List String) : List Mark :=
  (args.map fun a => quotable isQuoted a.toList).intersperse [.cut] |>.flatten

def dropLineEnds (text : List Char) : List Char :=
  (text.reverse.dropWhile fun c => c == '\n').reverse

/-- The value of an arithmetic text. -/
def evaluate? (text : List Char) (st : State) : Option (Int × State) :=
  match Formula.read? text with
  | some f =>
    f.eval (fun (st : State) name => (st.valueOf? name).getD "")
      (fun st name value => st.setVariable name (some value)) st
  | none => none

def expandPieces (run : Substitution) : Nat → Word → State → List Mark × State
  | 0, _, st => ([], st)
  | _ + 1, [], st => ([], st)
  | fuel + 1, piece :: rest, st =>
    let inner (isQuoted : Bool) (text : List Char) (st : State) : List Mark × State :=
      match if isQuoted then quotedWordOf? text else wordOf? text with
      | some word => expandPieces run fuel word st
      | none => ([], st)
    let (marks, st) : List Mark × State := match piece with
      | .plain text true => (.presence :: marksOf .quoted text, st)
      | .plain text false => (marksOf .written text, st)
      | .output script isQuoted =>
        let (bytes, st) := run script st
        let text := (Text.decodeLossy bytes).toList.filter fun c => c.toNat != 0
        (quotable isQuoted (dropLineEnds text), st)
      | .sum text isQuoted =>
        let (marks, st) := inner true text st
        match evaluate? (textOfMarks marks) st with
        | some (n, st) => (quotable isQuoted (toString n).toList, st)
        | none =>
          ([], { st.complain "arithmetic expression: expecting primary" 2 with flow := .exiting })
      | .parameter p a isQuoted =>
        let value := parameterValue? st p
        let plain := match p with
          | .all => argumentMarks isQuoted st.args
          | .joined => if isQuoted then quotable true (value.getD "").toList
            else argumentMarks false st.args
          | _ => quotable isQuoted (value.getD "").toList
        let isMissing (orEmpty : Bool) := value.isNone || (orEmpty && value == some "")
        match a with
        | .keep => (plain, st)
        | .length => (quotable isQuoted (toString (value.getD "").length).toList, st)
        | .orElse orEmpty word => if isMissing orEmpty then inner isQuoted word st else (plain, st)
        | .orSet orEmpty word =>
          if isMissing orEmpty then
            let (marks, st) := inner isQuoted word st
            match p with
            | .variable name =>
              (marks, st.setVariable name (some (String.ofList (textOfMarks marks))))
            | _ => (marks, st)
          else (plain, st)
        | .instead orEmpty word => if isMissing orEmpty then ([], st) else inner isQuoted word st
        | .dropStart longest pattern =>
          let (marks, st) := inner false pattern st
          (quotable isQuoted
            (dropMatchAtStart longest (patternOfMarks marks) (value.getD "").toList), st)
        | .dropEnd longest pattern =>
          let (marks, st) := inner false pattern st
          (quotable isQuoted
            (dropMatchAtEnd longest (patternOfMarks marks) (value.getD "").toList), st)
    let (more, st) := expandPieces run fuel rest st
    (marks ++ more, st)

/-- A tilde alone or before a slash at the start of a word stands for the home directory. -/
def expandTilde (w : Word) (st : State) : Word :=
  let home (rest : Word) : Word := .plain ((st.valueOf? "HOME").getD "~").toList true :: rest
  match w with
  | [.plain ['~'] false] => home []
  | .plain ['~'] false :: .plain ['/'] false :: rest => home (.plain ['/'] false :: rest)
  | w => w

/-- How many pieces one word may take, those of the words in it included. -/
def pieceBound : Nat := 100000

/-- What a word stands for where it is not cut into fields. -/
def expandText (run : Substitution) (w : Word) (st : State) : String × State :=
  let (marks, st) := expandPieces run pieceBound (expandTilde w st) st
  (String.ofList (textOfMarks marks), st)

/-! ### Fields -/

abbrev Field := List (Char × Bool)

def cutFields (separators : List Char) : Option Field → List Mark → List Field
  | none, [] => []
  | some current, [] => [current.reverse]
  | none, .cut :: rest => cutFields separators none rest
  | some current, .cut :: rest => current.reverse :: cutFields separators none rest
  | current, .presence :: rest => cutFields separators (some (current.getD [])) rest
  | current, .char c origin :: rest =>
    if origin = .substituted ∧ separators.contains c then
      if c = ' ' ∨ c = '\t' ∨ c = '\n' then
        match current with
        | some field => field.reverse :: cutFields separators none rest
        | none => cutFields separators none rest
      else (current.getD []).reverse :: cutFields separators none rest
    else cutFields separators (some ((c, origin == .quoted) :: current.getD [])) rest

def cutAtSlashes : Field → List Field
  | [] => [[]]
  | (c, isQuoted) :: rest =>
    if c = '/' then [] :: cutAtSlashes rest
    else
      match cutAtSlashes rest with
      | [] => [[(c, isQuoted)]]
      | first :: others => ((c, isQuoted) :: first) :: others

/-- The names in the directory at the end of a path. -/
def namesIn (d : Disk) (p : List Char) : List (List Char) :=
  match d.locate (.ofString (if p.isEmpty then "." else String.ofList p)) with
  | .ok place => (d.tree.children place).map fun entry => (Text.decodeLossy entry.1).toList
  | .error _ => []

def matchingPaths (d : Disk) (base : List Char) : List Field → List (List Char)
  | [] => []
  | part :: rest =>
    let pattern := Pattern.ofMarked part
    let candidates :=
      if pattern.isActive then
        (namesIn d base).filter fun name =>
          pattern.fits name && (name.head? != some '.' || (part.head?.map Prod.fst) == some '.')
      else [part.map Prod.fst]
    match rest with
    | [] =>
      (candidates.map fun name => base ++ name).filter fun p =>
        p.isEmpty || d.exists? (.ofString (String.ofList p))
    | _ => candidates.flatMap fun name => matchingPaths d (base ++ name ++ ['/']) rest

/-- The texts that a field stands for: the paths that match it, or itself. -/
def textsOfField (d : Disk) (f : Field) : List String :=
  let itself := String.ofList (f.map Prod.fst)
  if (Pattern.ofMarked f).isActive then
    match matchingPaths d [] (cutAtSlashes f) with
    | [] => [itself]
    | paths => paths.map String.ofList
  else [itself]

/-- What separates the fields of substituted texts. -/
def separators (st : State) : List Char :=
  ((st.valueOf? "IFS").getD " \t\n").toList

def expandFields (run : Substitution) (w : Word) (st : State) : List String × State :=
  let (marks, st) := expandPieces run pieceBound (expandTilde w st) st
  ((cutFields (separators st) none marks).flatMap (textsOfField st.disk), st)

/-- The fields that words stand for. -/
def expandAll (run : Substitution) : List Word → State → List String × State
  | [], st => ([], st)
  | w :: rest, st =>
    let (fields, st) := expandFields run w st
    let (more, st) := expandAll run rest st
    (fields ++ more, st)

end ModBench.Shell
