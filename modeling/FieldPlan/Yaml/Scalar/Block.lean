import FieldPlan.Yaml.Cursor
import FieldPlan.Yaml.Fault
/-!
# Block scalars

A text by indentation, under a header: literal lines keep their breaks, folded ones are joined where
neither line starts with a blank. The header may give the indentation and say how the text ends.
-/
namespace FieldPlan.Yaml.Block

/-- What becomes of the breaks at the end of the text. -/
inductive Ending where
  | strip
  | clip
  | keep
  deriving DecidableEq, Repr

structure Header where
  ending : Ending
  /-- columns of the text beyond those of the collection around it, if given -/
  indentation : Option Nat
  deriving Repr

def takeEnding (c : Cursor) : Option Ending × Cursor :=
  match c.peek 0 with
  | some '+' => (some .keep, c.step)
  | some '-' => (some .strip, c.step)
  | _ => (none, c)

def takeIndentation (c : Cursor) : Option Nat × Cursor :=
  match c.peek 0 with
  | some ch => if ch.isDigit then (some (ch.toNat - '0'.toNat), c.step) else (none, c)
  | none => (none, c)

/-- The rest of the header's line holds at most a comment. -/
def headerEnd (c : Cursor) : Except Fault Cursor :=
  let c := c.skipComment
  if c.atLineEnd then .ok c.takeBreak.2 else .error (.token .header)

/-- The two parts of a header stand in any order. -/
def header (c : Cursor) : Except Fault (Header × Cursor) :=
  let (before, c) := takeEnding c
  let (indentation, c) := takeIndentation c
  let (after, c) := if before.isNone && indentation.isSome then takeEnding c else (none, c)
  if indentation = some 0 || !c.atSpaceOrEnd then .error (.token .header)
  else (headerEnd c).map fun c => (⟨((before <|> after).getD .clip), indentation⟩, c)

/-- The breaks of blank lines, and the place up to this column where the next line starts. -/
def blankLines (column : Nat) : Nat → Cursor → List Char × Cursor
  | 0, c => ([], c)
  | fuel + 1, c =>
    let spaces := c.rest.takeWhile (· == ' ')
    match (c.advance (min spaces.length (column - c.column))).takeBreak with
    | ([], next) => ([], next)
    | (here, next) =>
      let (more, next) := blankLines column fuel next
      (here ++ more, next)

/-- The breaks of the blank lines in front of the text, and the furthest column they reach. -/
def leadingLines : Nat → Cursor → List Char × Nat × Cursor
  | 0, c => ([], 0, c)
  | fuel + 1, c =>
    let start := c.skip (· == ' ')
    let reached := if start.index = c.index then 0 else start.column
    match start.takeBreak with
    | ([], next) => ([], reached, next)
    | (here, next) =>
      let (more, column, next) := leadingLines fuel next
      (here ++ more, max reached column, next)

/-- A text without its last breaks, which the header disposes of. -/
structure Lines where
  text : List Char
  last : List Char
  blank : List Char
  next : Cursor

def startsBlank (c : Cursor) : Bool := (c.peek 0).any isBlank

/-- What stands between a line and the next: a break, unless both are to be joined. -/
def joint (folds : Bool) (line next : Cursor) (last blank : List Char) : List Char :=
  if folds && last == ['\n'] && !startsBlank line && !startsBlank next then
    if blank.isEmpty then [' '] else []
  else last

/-- The lines that start at a column, behind some breaks. -/
def lines (folds : Bool) (column : Nat) : Nat → List Char → Cursor → Lines
  | 0, blank, c => ⟨[], [], blank, c⟩
  | fuel + 1, blank, c =>
    if c.column ≠ column || c.atEnd then ⟨[], [], blank, c⟩
    else
      let (line, c') := c.span (!isBreak ·)
      let (last, c') := c'.takeBreak
      let (after, next) := blankLines column fuel c'
      if next.column = column && !next.atEnd then
        let more := lines folds column fuel after next
        { more with text := blank ++ line ++ joint folds c next last after ++ more.text }
      else ⟨blank ++ line, last, after, next⟩

/-- The text as its header has it end. -/
def Lines.ended (ls : Lines) : Ending → List Char
  | .strip => ls.text
  | .clip => ls.text ++ ls.last
  | .keep => ls.text ++ ls.last ++ ls.blank

/-- The text of a block scalar that starts here, within a collection whose entries may start at
`least`. -/
def read (folds : Bool) (least : Nat) (c : Cursor) : Except Fault (List Char × Cursor) := do
  let fuel := c.rest.length
  let (h, c) ← header c.step
  let least := max 1 least
  let (blank, column, c) := match h.indentation with
    | some n =>
      let (blank, c) := blankLines (least + n - 1) fuel c
      (blank, least + n - 1, c)
    | none =>
      let (blank, reached, c) := leadingLines fuel c
      (blank, max least reached, c)
  let ls := lines folds column fuel blank c
  return (ls.ended h.ending, ls.next)

end FieldPlan.Yaml.Block
