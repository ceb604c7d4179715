import FieldPlan.Yaml.Cursor
/-!
# Plain scalars

Words without quotes, over one line or several, up to what ends them: a comment, the colon of a
key, a mark of a flow collection around them, or a line that is not indented enough.
-/
namespace FieldPlan.Yaml.Plain

/-- Marks that end a word inside a flow collection. -/
def flowMarks : List Char := ",?[]\x7b\x7d".toList

/-- Marks that a colon may stand before inside a flow collection. -/
def colonMarks : List Char := ",[]\x7b\x7d".toList

/-- A colon ends a word in front of a gap. -/
def colonEnds (inFlow : Bool) (next : Option Char) : Bool :=
  next.all fun c => isGap c || (inFlow && colonMarks.contains c)

def word (inFlow : Bool) : List Char → List Char
  | [] => []
  | c :: rest =>
    if isGap c || (c = ':' && colonEnds inFlow rest.head?) || (inFlow && flowMarks.contains c) then []
    else c :: word inFlow rest

structure Space where
  text : List Char
  crossesLine : Bool
  next : Cursor

/-- The breaks of blank lines, and the place where the next line with text starts; none where a
document is marked. -/
def blankLines : Nat → Cursor → Option (List Char) × Cursor
  | 0, c => (some [], c)
  | fuel + 1, c =>
    if c.atMarker then (none, c)
    else
      match (c.skip (· == ' ')).takeBreak with
      | ([], next) => (some [], next)
      | (here, next) =>
        let (more, next) := blankLines fuel next
        (more.map (here ++ ·), next)

/-- The space here: blanks within a line, or folded line breaks. It is empty where the scalar
ends. -/
def space (c : Cursor) : Space :=
  let (blanks, next) := c.span (· == ' ')
  match next.takeBreak with
  | ([], next) => ⟨blanks, false, next⟩
  | (first, next) =>
    let (blank, next) := blankLines next.rest.length next
    ⟨(blank.map (fold first)).getD [], true, next⟩

/-- The words from here on, and the space behind the last. A line must start at `least` or
further right. -/
def words (inFlow : Bool) (least : Nat) : Nat → List Char → Cursor → List Char × Space
  | 0, _, c => ([], ⟨[], false, c⟩)
  | fuel + 1, between, c =>
    let here := word inFlow c.rest
    let after := space (c.advance here.length)
    let next := after.next
    let ends := after.text.isEmpty || next.peek 0 == some '#' ||
      (!inFlow && next.column < least) || (word inFlow next.rest).isEmpty
    if ends then (between ++ here, after)
    else
      let (more, last) := words inFlow least fuel after.text next
      (between ++ here ++ more, last)

/-- The text of a plain scalar that starts here, and the space behind it. -/
def read (inFlow : Bool) (least : Nat) (c : Cursor) : List Char × Space :=
  words inFlow least (c.rest.length + 1) [] c

end FieldPlan.Yaml.Plain
