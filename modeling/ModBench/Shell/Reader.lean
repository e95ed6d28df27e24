import ModBench.Shell.Command
import ModBench.Text.Numeral

/-!
Reading scripts.  Each reader takes characters from the front and gives what it read with the
characters behind it; it fails where the script is malformed.
-/

set_option autoImplicit false
set_option relaxedAutoImplicit false

namespace ModBench.Shell

/-- Put something in front of the list that was read. -/
def inFront {α : Type} (first : α) (r : Option (List α × List Char)) :
    Option (List α × List Char) :=
  r.map fun (items, rest) => (first :: items, rest)

/-! ### Words -/

/-- Whether a character ends an unquoted word. -/
def isBreak (c : Char) : Bool :=
  [' ', '\t', '\n', ';', '&', '|', '<', '>', '(', ')'].contains c

/-- Whether a character takes part in quoting or in a substitution. -/
def isActive (c : Char) : Bool :=
  ['\'', '"', '\\', '$', '\x60'].contains c

def isNameStart (c : Char) : Bool :=
  c.isAlpha || c == '_'

def isNameChar (c : Char) : Bool :=
  c.isAlphanum || c == '_'

/-- The quoting that a character stands in. -/
inductive Quoting where
  | bare
  | single
  | double
  deriving DecidableEq, Repr, Inhabited

def Quoting.next (q : Quoting) (c : Char) : Quoting :=
  match q with
  | .bare => if c = '\'' then .single else if c = '"' then .double else .bare
  | .single => if c = '\'' then .bare else .single
  | .double => if c = '"' then .bare else .double

def spanClosing (opening closing : Char) :
    Quoting → Nat → List Char → Option (List Char × List Char)
  | _, _, [] => none
  | q, depth, '\\' :: c :: rest =>
    if q = .single then
      inFront '\\' (inFront c (spanClosing opening closing (q.next c) depth rest))
    else inFront '\\' (inFront c (spanClosing opening closing q depth rest))
  | q, depth, c :: rest =>
    if q = .bare ∧ c = opening then
      inFront c (spanClosing opening closing q (depth + 1) rest)
    else if q = .bare ∧ c = closing then
      match depth with
      | 0 => some ([], rest)
      | depth + 1 => inFront c (spanClosing opening closing q depth rest)
    else inFront c (spanClosing opening closing (q.next c) depth rest)

def spanUntil (stop : Char) : List Char → Option (List Char × List Char)
  | [] => none
  | c :: rest => if c = stop then some ([], rest) else inFront c (spanUntil stop rest)

/-- A script between backquotes.  A backslash protects a backquote, a dollar sign and itself. -/
def spanBackquoted : List Char → Option (List Char × List Char)
  | [] => none
  | '\x60' :: rest => some ([], rest)
  | '\\' :: c :: rest =>
    if c = '\x60' ∨ c = '$' ∨ c = '\\' then inFront c (spanBackquoted rest)
    else inFront '\\' (inFront c (spanBackquoted rest))
  | c :: rest => inFront c (spanBackquoted rest)

/-- A parameter; outside braces a position has one digit. -/
def readParameter (inBraces : Bool) : List Char → Option (Parameter × List Char)
  | [] => none
  | c :: rest =>
    if c = '@' then some (.all, rest)
    else if c = '*' then some (.joined, rest)
    else if c = '#' then some (.count, rest)
    else if c = '?' then some (.status, rest)
    else if c = '$' then some (.process, rest)
    else if isNameStart c then
      some (.variable (String.ofList (c :: rest.takeWhile isNameChar)), rest.dropWhile isNameChar)
    else
      match Text.digit? c with
      | none => none
      | some d =>
        if inBraces then
          (Text.digitsFrom d (rest.takeWhile Char.isDigit)).map fun n =>
            (.position n, rest.dropWhile Char.isDigit)
        else some (.position d, rest)

/-- What is written behind a parameter in braces. -/
def alteration? : List Char → Option Alteration
  | [] => some .keep
  | ':' :: '-' :: word => some (.orElse true word)
  | '-' :: word => some (.orElse false word)
  | ':' :: '=' :: word => some (.orSet true word)
  | '=' :: word => some (.orSet false word)
  | ':' :: '+' :: word => some (.instead true word)
  | '+' :: word => some (.instead false word)
  | '#' :: '#' :: pattern => some (.dropStart true pattern)
  | '#' :: pattern => some (.dropStart false pattern)
  | '%' :: '%' :: pattern => some (.dropEnd true pattern)
  | '%' :: pattern => some (.dropEnd false pattern)
  | _ => none

/-- What stands between braces. -/
def braced? (text : List Char) : Option (Parameter × Alteration) :=
  let plain := do
    let (p, rest) ← readParameter true text
    let a ← alteration? rest
    pure (p, a)
  match text with
  | '#' :: rest =>
    match readParameter true rest with
    | some (p, []) => some (p, .length)
    | _ => plain
  | _ => plain

/-- What a dollar sign opens. -/
def readDollar (quoted : Bool) (cs : List Char) : Option (Piece × List Char) :=
  match cs with
  | '(' :: rest => do
    let (inside, rest) ← spanClosing '(' ')' .bare 0 rest
    if inside.head? = some '(' ∧ inside.getLast? = some ')' then
      pure (.sum (inside.drop 1).dropLast quoted, rest)
    else pure (.output inside quoted, rest)
  | '\x7b' :: rest => do
    let (inside, rest) ← spanClosing '\x7b' '\x7d' .bare 0 rest
    let (p, a) ← braced? inside
    pure (.parameter p a quoted, rest)
  | _ =>
    match readParameter false cs with
    | some (p, rest) => some (.parameter p .keep quoted, rest)
    | none => some (.plain ['$'] quoted, cs)

/-- The pieces up to the closing double quote. -/
def readQuoted : Nat → List Char → Option (Word × List Char)
  | 0, _ => none
  | _ + 1, [] => none
  | fuel + 1, c :: rest =>
    if c = '"' then some ([], rest)
    else if c = '$' then do
      let (piece, rest) ← readDollar true rest
      inFront piece (readQuoted fuel rest)
    else if c = '\x60' then do
      let (script, rest) ← spanBackquoted rest
      inFront (.output script true) (readQuoted fuel rest)
    else if c = '\\' then
      match rest with
      | [] => none
      | '\n' :: rest => readQuoted fuel rest
      | d :: rest =>
        let text := if d = '$' ∨ d = '\x60' ∨ d = '"' ∨ d = '\\' then [d] else ['\\', d]
        inFront (.plain text true) (readQuoted fuel rest)
    else inFront (.plain [c] true) (readQuoted fuel rest)

def readWord (ends : Char → Bool) : Nat → List Char → Option (Word × List Char)
  | 0, _ => none
  | _ + 1, [] => some ([], [])
  | fuel + 1, c :: rest =>
    if ends c then some ([], c :: rest)
    else if c = '\'' then do
      let (text, rest) ← spanUntil '\'' rest
      inFront (.plain text true) (readWord ends fuel rest)
    else if c = '"' then do
      let (inner, rest) ← readQuoted fuel rest
      let (more, rest) ← readWord ends fuel rest
      pure ((if inner.isEmpty then [.plain [] true] else inner) ++ more, rest)
    else if c = '$' then do
      let (piece, rest) ← readDollar false rest
      inFront piece (readWord ends fuel rest)
    else if c = '\x60' then do
      let (script, rest) ← spanBackquoted rest
      inFront (.output script false) (readWord ends fuel rest)
    else if c = '\\' then
      match rest with
      | [] => some ([.plain ['\\'] true], [])
      | '\n' :: rest => readWord ends fuel rest
      | d :: rest => inFront (.plain [d] true) (readWord ends fuel rest)
    else inFront (.plain [c] false) (readWord ends fuel rest)

def wordOf? (text : List Char) : Option Word :=
  (readWord (fun _ => false) (text.length + 1) text).map Prod.fst

/-- A text with its substitutions, as between double quotes. -/
def quotedWordOf? (text : List Char) : Option Word :=
  (readQuoted (text.length + 2) (text ++ ['"'])).map Prod.fst

/-! ### Between words -/

/-- What follows blanks, joined lines and a comment. -/
def skipBlanks (inComment : Bool) : List Char → List Char
  | [] => []
  | '\\' :: '\n' :: rest => if inComment then '\n' :: rest else skipBlanks false rest
  | c :: rest =>
    if inComment then if c = '\n' then c :: rest else skipBlanks true rest
    else if c = ' ' ∨ c = '\t' then skipBlanks false rest
    else if c = '#' then skipBlanks true rest
    else c :: rest

/-- What follows blanks, comments and line ends. -/
def skipLines : Nat → List Char → List Char
  | 0, cs => cs
  | fuel + 1, cs =>
    match skipBlanks false cs with
    | '\n' :: rest => skipLines fuel rest
    | rest => rest

/-- What follows all that is blank. -/
def skipAll (cs : List Char) : List Char :=
  skipLines (cs.length + 1) cs

/-- A word without any quoting or substitution. -/
def readBare (cs : List Char) : Option (String × List Char) :=
  let text := cs.takeWhile fun c => !isBreak c && !isActive c
  let rest := cs.drop text.length
  match rest with
  | c :: _ => if isBreak c then some (String.ofList text, rest) else none
  | [] => some (String.ofList text, rest)

/-- What follows a reserved word, if that is what comes next. -/
def expectWord (word : String) (cs : List Char) : Option (List Char) :=
  match readBare (skipAll cs) with
  | some (found, rest) => if found = word then some rest else none
  | none => none

/-- What follows a character, if that is what comes next. -/
def expectChar (c : Char) (cs : List Char) : Option (List Char) :=
  match skipAll cs with
  | d :: rest => if d = c then some rest else none
  | [] => none

def closingWords : List String :=
  ["then", "else", "elif", "fi", "do", "done", "esac", "\x7d"]

def endsList (cs : List Char) : Bool :=
  match cs with
  | [] => true
  | ')' :: _ => true
  | ';' :: ';' :: _ => true
  | _ =>
    match readBare cs with
    | some (word, _) => closingWords.contains word
    | none => false

/-! ### Simple commands -/

/-- A redirection, if one comes next. -/
def readRedirection (cs : List Char) : Option (Redirection × List Char) :=
  let number := cs.takeWhile Char.isDigit
  let descriptor := Text.digits? number
  let operator := match cs.drop number.length with
    | '>' :: '>' :: rest => some (1, Mode.append, rest)
    | '>' :: '&' :: rest => some (1, Mode.duplicate, rest)
    | '>' :: '|' :: rest => some (1, Mode.write, rest)
    | '>' :: rest => some (1, Mode.write, rest)
    | '<' :: '&' :: rest => some (0, Mode.duplicate, rest)
    | '<' :: '<' :: _ => none
    | '<' :: rest => some (0, Mode.read, rest)
    | _ => none
  match operator with
  | none => none
  | some (usual, mode, rest) =>
    match readWord isBreak (rest.length + 1) (skipBlanks false rest) with
    | some ([], _) => none
    | some (target, rest) => some (⟨descriptor.getD usual, mode, target⟩, rest)
    | none => none

/-- The name and the value of an assignment, if one comes next. -/
def readSetting (cs : List Char) : Option ((String × Word) × List Char) :=
  let name := cs.takeWhile isNameChar
  match name.head?, cs.drop name.length with
  | some c, '=' :: value =>
    if isNameStart c then
      (readWord isBreak (value.length + 1) value).map fun (word, rest) =>
        ((String.ofList name, word), rest)
    else none
  | _, _ => none

/-- The redirections that come next. -/
def readRedirections : Nat → List Char → List Redirection × List Char
  | 0, cs => ([], cs)
  | fuel + 1, cs =>
    match readRedirection (skipBlanks false cs) with
    | some (r, rest) =>
      let (more, rest) := readRedirections fuel rest
      (r :: more, rest)
    | none => ([], cs)

def readSimple (noWordYet : Bool) :
    Nat → List Char → Option ((List (String × Word) × List Word × List Redirection) × List Char)
  | 0, _ => none
  | fuel + 1, cs =>
    let cs := skipBlanks false cs
    match readRedirection cs with
    | some (r, rest) => do
      let ((settings, words, redirections), rest) ← readSimple noWordYet fuel rest
      pure ((settings, words, r :: redirections), rest)
    | none =>
      match cs with
      | [] => some (([], [], []), [])
      | c :: _ =>
        if isBreak c then some (([], [], []), cs)
        else
          match if noWordYet then readSetting cs else none with
          | some (setting, rest) => do
            let ((settings, words, redirections), rest) ← readSimple true fuel rest
            pure ((setting :: settings, words, redirections), rest)
          | none => do
            let (word, rest) ← readWord isBreak (cs.length + 1) cs
            let ((settings, words, redirections), rest) ← readSimple false fuel rest
            pure ((settings, word :: words, redirections), rest)

/-- Words up to the end of the line or a semicolon. -/
def readWords : Nat → List Char → Option (List Word × List Char)
  | 0, _ => none
  | fuel + 1, cs =>
    match skipBlanks false cs with
    | [] => some ([], [])
    | c :: rest =>
      if isBreak c then some ([], c :: rest)
      else do
        let (word, rest) ← readWord isBreak (rest.length + 2) (c :: rest)
        inFront word (readWords fuel rest)

/-- Patterns with bars between them, up to the closing parenthesis. -/
def readPatterns : Nat → List Char → Option (List Word × List Char)
  | 0, _ => none
  | fuel + 1, cs => do
    let (word, rest) ← readWord isBreak (cs.length + 1) (skipBlanks false cs)
    match skipBlanks false rest with
    | ')' :: rest => pure ([word], rest)
    | '|' :: rest => inFront word (readPatterns fuel rest)
    | _ => none

def readFunctionName (cs : List Char) : Option (String × List Char) :=
  match readBare cs with
  | some (name, '(' :: rest) =>
    match skipBlanks false rest with
    | ')' :: rest => if name.isEmpty then none else some (name, rest)
    | _ => none
  | _ => none

def withRedirections (body : Command) (cs : List Char) : Command × List Char :=
  match readRedirections (cs.length + 1) cs with
  | ([], rest) => (body, rest)
  | (redirections, rest) => (.redirected body redirections, rest)

/-! ### Commands -/

mutual

def readList : Nat → List Char → Option (Command × List Char)
  | 0, _ => none
  | fuel + 1, cs =>
    let cs := skipAll cs
    if endsList cs then some (.nothing, cs)
    else
      match readChain fuel cs with
      | none => none
      | some (first, cs) =>
        let more (first : Command) (rest : List Char) : Option (Command × List Char) :=
          (readList fuel rest).map fun (second, rest) => (.sequence first second, rest)
        match skipBlanks false cs with
        | '&' :: rest => more (.background first) rest
        | ';' :: ';' :: rest => some (first, ';' :: ';' :: rest)
        | ';' :: rest => more first rest
        | '\n' :: rest => more first rest
        | rest => some (first, rest)

/-- Pipelines that hang on each other's success. -/
def readChain : Nat → List Char → Option (Command × List Char)
  | 0, _ => none
  | fuel + 1, cs => do
    let (first, rest) ← readPipeline fuel cs
    readChainOn fuel first rest

/-- The rest of such a chain. -/
def readChainOn : Nat → Command → List Char → Option (Command × List Char)
  | 0, _, _ => none
  | fuel + 1, first, cs =>
    match skipBlanks false cs with
    | '&' :: '&' :: rest => do
      let (second, rest) ← readPipeline fuel (skipAll rest)
      readChainOn fuel (.both first second) rest
    | '|' :: '|' :: rest => do
      let (second, rest) ← readPipeline fuel (skipAll rest)
      readChainOn fuel (.either first second) rest
    | rest => some (first, rest)

/-- Commands with bars between them. -/
def readPipeline : Nat → List Char → Option (Command × List Char)
  | 0, _ => none
  | fuel + 1, cs =>
    match expectWord "!" cs with
    | some rest => (readPipeline fuel rest).map fun (body, rest) => (.inverted body, rest)
    | none => do
      let (first, rest) ← readCommand fuel (skipBlanks false cs)
      readPipelineOn fuel first rest

def readPipelineOn : Nat → Command → List Char → Option (Command × List Char)
  | 0, _, _ => none
  | fuel + 1, first, cs =>
    match skipBlanks false cs with
    | '|' :: '|' :: rest => some (first, '|' :: '|' :: rest)
    | '|' :: rest => do
      let (second, rest) ← readCommand fuel (skipAll rest)
      readPipelineOn fuel (.pipe first second) rest
    | rest => some (first, rest)

def readCommand : Nat → List Char → Option (Command × List Char)
  | 0, _ => none
  | fuel + 1, cs =>
    match cs with
    | '(' :: rest => do
      let (body, rest) ← readList fuel rest
      let rest ← expectChar ')' rest
      pure (withRedirections (.apart body) rest)
    | _ =>
      match readFunctionName cs with
      | some (name, rest) => do
        let (body, rest) ← readCommand fuel (skipAll rest)
        pure (.function name body, rest)
      | none =>
        match readBare cs with
        | some ("\x7b", rest) => do
          let (body, rest) ← readList fuel rest
          let rest ← expectWord "\x7d" rest
          pure (withRedirections body rest)
        | some ("if", rest) => do
          let (body, rest) ← readChoice fuel rest
          pure (withRedirections body rest)
        | some ("while", rest) => readLoop fuel true rest
        | some ("until", rest) => readLoop fuel false rest
        | some ("for", rest) => do
          let (name, rest) ← readBare (skipAll rest)
          let (words, rest) ← match expectWord "in" rest with
            | some rest => (readWords (rest.length + 1) rest).map fun (words, rest) =>
                (some words, rest)
            | none => some (none, rest)
          let rest := match skipBlanks false rest with
            | ';' :: rest => rest
            | rest => rest
          let rest ← expectWord "do" rest
          let (body, rest) ← readList fuel rest
          let rest ← expectWord "done" rest
          pure (withRedirections (.each name words body) rest)
        | some ("case", rest) => do
          let (subject, rest) ← readWord isBreak (rest.length + 1) (skipAll rest)
          let rest ← expectWord "in" rest
          let (arms, rest) ← readArms fuel rest
          pure (withRedirections (.cases subject arms) rest)
        | _ =>
          match readSimple true (cs.length + 1) cs with
          | some (([], [], []), _) => none
          | some ((settings, words, redirections), rest) =>
            some (.simple (cs.count '\n') settings words redirections, rest)
          | none => none

/-- A test with the commands that hang on it. -/
def readChoice : Nat → List Char → Option (Command × List Char)
  | 0, _ => none
  | fuel + 1, cs => do
    let (test, rest) ← readList fuel cs
    let rest ← expectWord "then" rest
    let (yes, rest) ← readList fuel rest
    match expectWord "elif" rest, expectWord "else" rest with
    | some rest, _ => do
      let (no, rest) ← readChoice fuel rest
      pure (.choice test yes no, rest)
    | none, some rest => do
      let (no, rest) ← readList fuel rest
      let rest ← expectWord "fi" rest
      pure (.choice test yes no, rest)
    | none, none => do
      let rest ← expectWord "fi" rest
      pure (.choice test yes .nothing, rest)

/-- A loop behind its first word. -/
def readLoop : Nat → Bool → List Char → Option (Command × List Char)
  | 0, _, _ => none
  | fuel + 1, wanted, cs => do
    let (test, rest) ← readList fuel cs
    let rest ← expectWord "do" rest
    let (body, rest) ← readList fuel rest
    let rest ← expectWord "done" rest
    pure (withRedirections (.loop wanted test body) rest)

def readArms : Nat → List Char → Option ((List (List Word × Command)) × List Char)
  | 0, _ => none
  | fuel + 1, cs =>
    match expectWord "esac" cs with
    | some rest => some ([], rest)
    | none => do
      let rest := (expectChar '(' cs).getD (skipAll cs)
      let (patterns, rest) ← readPatterns (rest.length + 1) rest
      let (body, rest) ← readList fuel rest
      let rest := match skipAll rest with
        | ';' :: ';' :: rest => rest
        | rest => rest
      inFront (patterns, body) (readArms fuel rest)

end

def openQuoting : Quoting → List Char → Quoting
  | q, [] => q
  | q, '\\' :: c :: rest =>
    if q = .single then openQuoting (q.next c) rest else openQuoting q rest
  | q, c :: rest => openQuoting (q.next c) rest

/-- What is said of a script that cannot be read, where `rest` is what is not understood. -/
def readingFault (text rest : List Char) : String :=
  if openQuoting .bare text ≠ .bare then "Unterminated quoted string"
  else
    match rest with
    | ')' :: _ => "\")\" unexpected"
    | ';' :: ';' :: _ => "\";;\" unexpected"
    | _ =>
      match readBare rest with
      | some (word, _) =>
        if closingWords.contains word then "\"" ++ word ++ "\" unexpected"
        else "end of file unexpected"
      | none => "end of file unexpected"

def readScript (text : List Char) : Except String Command :=
  match readList (8 * text.length + 16) text with
  | some (c, []) => .ok c
  | some (_, rest) => .error (readingFault text rest)
  | none => .error (readingFault text [])

end ModBench.Shell
