import ModBench.Url.Host

/-!
Paths of URLs.  A path is cut into segments at slashes; a dot segment stands for nothing and two
dots take the segment before them away, but never a drive letter.
-/

set_option autoImplicit false
set_option relaxedAutoImplicit false

namespace ModBench.Url

/-- Whether a segment stands for the directory itself. -/
def isSingleDot (segment : List Char) : Bool :=
  let lower := segment.map lowerAscii
  lower == ['.'] || lower == ['%', '2', 'e']

/-- Whether a segment stands for the directory above. -/
def isDoubleDot (segment : List Char) : Bool :=
  let lower := segment.map lowerAscii
  lower == ['.', '.'] || lower == ['.', '%', '2', 'e'] || lower == ['%', '2', 'e', '.'] ||
    lower == ['%', '2', 'e', '%', '2', 'e']

def isDriveLetter (segment : List Char) : Bool :=
  match segment with
  | [letter, mark] => letter.isAlpha && (mark = ':' || mark = '|')
  | _ => false

/-- A drive letter with a colon. -/
def withColon (segment : List Char) : List Char :=
  segment.take 1 ++ [':']

/-- Segments without the last one, unless that is a drive letter. -/
def dropLastSegment (done : List (List Char)) : List (List Char) :=
  if (done.getLast?.map isDriveLetter).getD false then done else done.dropLast

/-- A segment put behind others; a drive letter that comes first in a file's path gets its colon. -/
def addSegment (isFile : Bool) (done : List (List Char)) (segment : List Char) :
    List (List Char) :=
  if isFile && done.isEmpty && isDriveLetter segment then [withColon segment]
  else done ++ [segment]

/-- The segments of a path, `done` those that stand already. -/
def resolve (isFile : Bool) (done : List (List Char)) : List (List Char) → List (List Char)
  | [] => done
  | segment :: rest =>
    if isDoubleDot segment then
      let done := dropLastSegment done
      if rest.isEmpty then done ++ [[]] else resolve isFile done rest
    else if isSingleDot segment then
      if rest.isEmpty then done ++ [[]] else resolve isFile done rest
    else resolve isFile (addSegment isFile done segment) rest

/-- Segments without the empty ones at the beginning; the last segment stays. -/
def dropEmpty : List (List Char) → List (List Char)
  | [] :: next :: rest => dropEmpty (next :: rest)
  | segments => segments

/-- The segments of a path text that begins behind its first slash. -/
def segmentsOf (isFile : Bool) (text : List Char) : List (List Char) :=
  let segments := resolve isFile [] (Text.split '/' text)
  if isFile then dropEmpty segments else segments

def bytesOf (segments : List (List Char)) : List UInt8 :=
  segments.flatMap fun segment => slash :: decode segment

/-- Whether bytes end like a drive letter. -/
def endsInDrive (bytes : List UInt8) : Bool :=
  match bytes.reverse with
  | mark :: letter :: _ :: _ =>
    (mark == 0x3a || mark == 0x7c) &&
      ((0x41 ≤ letter && letter ≤ 0x5a) || (0x61 ≤ letter && letter ≤ 0x7a))
  | _ => false

/-- The path of a file that segments stand for; a slash follows what ends like a drive letter. -/
def pathOfSegments (segments : List (List Char)) : Path :=
  let bytes := bytesOf segments
  ⟨if endsInDrive bytes then bytes ++ [slash] else bytes⟩

end ModBench.Url
