import FieldPlan.Text.FormEncoded
import FieldPlan.Text.Integer
import FieldPlan.Yaml.Cursor
import FieldPlan.Yaml.Fault
/-!
# Labels

What names a node or its kind: anchors, aliases and tags, and the directives in front of a document
that say what the handles of tags stand for.
-/
namespace FieldPlan.Yaml

/-- A tag as it is written: a suffix, with the handle in front of it if there is one. -/
structure TagLabel where
  handle : Option (List Char)
  suffix : List Char
  deriving DecidableEq, Repr

inductive Directive where
  | version (major minor : Nat)
  | handle (name stem : List Char)
  /-- a directive that says nothing about documents -/
  | other
  deriving DecidableEq, Repr

namespace Label

def isWordChar (c : Char) : Bool := c.isAlphanum || c = '-' || c = '_'

def isTagChar (c : Char) : Bool := c.isAlphanum || "-;/?:@&=+$,_.!~*'()[]%".toList.contains c

/-- What may follow an anchor or an alias, gaps apart. -/
def endMarks : List Char := "?:,]\x7d%@\x60".toList

/-- The name of an anchor or an alias, behind its mark. -/
def name (c : Cursor) : Except Fault (List Char × Cursor) :=
  let (cs, next) := c.step.span isWordChar
  if cs.isEmpty || !next.endsOr (fun ch => isGap ch || endMarks.contains ch) 0 then
    .error (.token .label)
  else .ok (cs, next)

/-- The bytes of consecutive percent escapes. -/
def escapedBytes : List Char → Option (List Nat)
  | '%' :: a :: b :: rest => do
    return (← Text.FormEncoded.escapedByte? a b) :: (← escapedBytes rest)
  | '%' :: _ => none
  | _ => some []

/-- The characters of consecutive percent escapes, and the place behind them. -/
def escaped (c : Cursor) : Except Fault (List Char × Cursor) :=
  match (escapedBytes c.rest).bind fun bytes => (Text.Utf8.decode? bytes).map (bytes, ·) with
  | some (bytes, cs) => .ok (cs, c.advance (3 * bytes.length))
  | none => .error (.token .tag)

/-- The characters of a tag, percent escapes decoded. -/
def tagChars : Nat → Cursor → Except Fault (List Char × Cursor)
  | 0, c => .ok ([], c)
  | fuel + 1, c => do
    let (cs, c) := c.span fun ch => isTagChar ch && ch != '%'
    if c.peek 0 != some '%' then return (cs, c)
    else
      let (ds, c) ← escaped c
      let (more, c) ← tagChars fuel c
      return (cs ++ ds ++ more, c)

/-- The suffix of a tag or the stem of a handle; it is not empty. -/
def tagText (c : Cursor) : Except Fault (List Char × Cursor) := do
  let (cs, c) ← tagChars (c.rest.length + 1) c
  if cs.isEmpty then .error (.token .tag) else return (cs, c)

/-- A handle: an exclamation mark, alone or with another one behind a word. -/
def handle (c : Cursor) : Except Fault (List Char × Cursor) :=
  if c.peek 0 != some '!' then .error (.token .tag)
  else if c.peek 1 == some ' ' then .ok (['!'], c.step)
  else
    let (cs, next) := c.step.span isWordChar
    if next.peek 0 == some '!' then .ok ('!' :: cs ++ ['!'], next.step) else .error (.token .tag)

/-- A second exclamation mark stands before the end of the tag, so that it starts with a handle. -/
def hasHandle (cs : List Char) : Bool :=
  (cs.takeWhile fun c => c != ' ' && !isBreak c).contains '!'

/-- A tag without what must follow it: whole between angle brackets, a lone exclamation mark, or a
suffix behind a handle. -/
def tagLabel (c : Cursor) : Except Fault (TagLabel × Cursor) :=
  if c.peek 1 == some '<' then do
    let (suffix, c) ← tagText (c.advance 2)
    if c.peek 0 == some '>' then return (⟨none, suffix⟩, c.step) else .error (.token .tag)
  else if c.gapAt 1 then .ok (⟨none, ['!']⟩, c.step)
  else do
    let (handle, c) ← if hasHandle c.step.rest then handle c else .ok (['!'], c.step)
    let (suffix, c) ← tagText c
    return (⟨some handle, suffix⟩, c)

def tag (c : Cursor) : Except Fault (TagLabel × Cursor) := do
  let (label, c) ← tagLabel c
  if c.atSpaceOrEnd then return (label, c) else .error (.token .tag)

def skipSpaces (c : Cursor) : Cursor := c.skip (· == ' ')

def versionNumber (c : Cursor) : Except Fault (Nat × Cursor) :=
  let (ds, next) := c.span Char.isDigit
  if ds.isEmpty then .error (.token .directive)
  else if Text.maxIntegerDigits < ds.length then .error (.range (.longInteger ds.length))
  else .ok (Text.ofDigits (ds.map fun d => d.toNat - '0'.toNat), next)

def version (c : Cursor) : Except Fault (Directive × Cursor) := do
  let (major, c) ← versionNumber (skipSpaces c)
  if c.peek 0 != some '.' then .error (.token .directive)
  else
    let (minor, c) ← versionNumber c.step
    if c.atSpaceOrEnd then return (.version major minor, c) else .error (.token .directive)

def handleStem (c : Cursor) : Except Fault (Directive × Cursor) := do
  let (name, c) ← handle (skipSpaces c)
  if c.peek 0 != some ' ' then .error (.token .directive)
  else
    let (stem, c) ← tagText (skipSpaces c)
    if c.atSpaceOrEnd then return (.handle name stem, c) else .error (.token .directive)

/-- The directive whose line starts here. -/
def directive (c : Cursor) : Except Fault (Directive × Cursor) := do
  let (name, c) := c.step.span isWordChar
  if name.isEmpty || !c.atSpaceOrEnd then .error (.token .directive)
  else
    let (d, c) ←
      if name = "YAML".toList then version c
      else if name = "TAG".toList then handleStem c
      else .ok (.other, c.skip (!isBreak ·))
    let c := c.skipComment
    if c.atLineEnd then return (d, c.takeBreak.2) else .error (.token .directive)

end Label
end FieldPlan.Yaml
