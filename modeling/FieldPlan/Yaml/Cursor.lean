/-!
# Places in a text

A cursor is a place in a text together with the characters that follow. A line ends at a line feed,
at `0x85` or at one of the separators `0x2028` and `0x2029`.
-/
namespace FieldPlan.Yaml

def isBreak (c : Char) : Bool := c = '\n' || c = '\x85' || c = '\u2028' || c = '\u2029'

def isBlank (c : Char) : Bool := c = ' ' || c = '\t'

def isGap (c : Char) : Bool := isBlank c || isBreak c

/-- What a line break is within a text: `0x85` becomes a line feed. -/
def breakChar (c : Char) : Char := if c = '\x85' then '\n' else c

/-- A place in a text. Lines and columns count from zero. -/
structure Cursor where
  rest : List Char
  index : Nat
  line : Nat
  column : Nat
  deriving Repr

namespace Cursor

def start (cs : List Char) : Cursor := ⟨cs, 0, 0, 0⟩

def atEnd (c : Cursor) : Bool := c.rest.isEmpty

def peek (c : Cursor) (k : Nat) : Option Char := c.rest[k]?

/-- Steps over a character; a byte order mark takes no column. -/
def step (c : Cursor) : Cursor :=
  match c.rest with
  | [] => c
  | ch :: rest =>
    if isBreak ch then ⟨rest, c.index + 1, c.line + 1, 0⟩
    else ⟨rest, c.index + 1, c.line, if ch = '\ufeff' then c.column else c.column + 1⟩

def advance : Nat → Cursor → Cursor
  | 0, c => c
  | n + 1, c => advance n c.step

/-- The characters up to the first that fails the test, and the place of that one. -/
def span (p : Char → Bool) (c : Cursor) : List Char × Cursor :=
  let cs := c.rest.takeWhile p
  (cs, c.advance cs.length)

def skip (p : Char → Bool) (c : Cursor) : Cursor := (c.span p).2

/-- The character `k` further on passes the test, or the text ends before it. -/
def endsOr (p : Char → Bool) (c : Cursor) (k : Nat) : Bool := (c.peek k).all p

def gapAt (c : Cursor) (k : Nat) : Bool := c.endsOr isGap k

def atLineEnd (c : Cursor) : Bool := c.endsOr isBreak 0

def atSpaceOrEnd (c : Cursor) : Bool := c.endsOr (fun ch => ch = ' ' || isBreak ch) 0

def atAny (c : Cursor) (chars : String) : Bool := (c.peek 0).any chars.toList.contains

/-- The start or the end of a document is marked here. -/
def atMarker (c : Cursor) : Bool :=
  ["---".toList, "...".toList].contains (c.rest.take 3) && c.gapAt 3

/-- The line break here, if there is one, and the place behind it. -/
def takeBreak (c : Cursor) : List Char × Cursor :=
  match c.rest with
  | [] => ([], c)
  | ch :: _ => if isBreak ch then ([breakChar ch], c.step) else ([], c)

/-- The place behind spaces and a comment, which is up to the end of the line. -/
def skipComment (c : Cursor) : Cursor :=
  let c := c.skip (· == ' ')
  if c.peek 0 == some '#' then c.skip (!isBreak ·) else c

end Cursor

/-- What a line break and the breaks of blank lines after it are within a text: a single line feed
becomes a space, of more the first is dropped. -/
def fold (first blank : List Char) : List Char :=
  if first != ['\n'] then first ++ blank else if blank.isEmpty then [' '] else blank

end FieldPlan.Yaml
