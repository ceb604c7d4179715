import FieldPlan.Yaml.Label
import FieldPlan.Yaml.Scalar.Block
import FieldPlan.Yaml.Scalar.Plain
import FieldPlan.Yaml.Scalar.Quoted
/-!
# Tokens

The tokens of a text. Block collections have no brackets: a collection begins with the first entry
to the right of the collection around it and ends in front of a line further left. What becomes a
key is known only at its colon, so a token that may begin a key waits until the colon is found or
can no longer come.
-/
namespace FieldPlan.Yaml

inductive Token where
  | textEnd
  | directive (d : Directive)
  | documentStart
  | documentEnd
  | blockSequenceStart
  | blockMappingStart
  | blockEnd
  | flowSequenceStart
  | flowSequenceEnd
  | flowMappingStart
  | flowMappingEnd
  | blockEntry
  | flowEntry
  | key
  | value
  | reference (name : List Char)
  | anchor (name : List Char)
  | tag (label : TagLabel)
  | scalar (isPlain : Bool) (text : List Char)
  deriving DecidableEq, Repr

structure PendingKey where
  /-- the number of the token that begins the key -/
  number : Nat
  /-- the place lies where a line of a block mapping must have a key -/
  required : Bool
  start : Cursor

/-- How far the tokens of a text have been read. -/
structure TokenStream where
  cursor : Cursor
  queue : List Token
  /-- the number of tokens handed out -/
  taken : Nat
  /-- flow collections around the cursor -/
  depth : Nat
  /-- columns of the block collections around the cursor, the innermost first -/
  columns : List Nat
  /-- a key may begin at the cursor -/
  allowsKey : Bool
  /-- places where a key may have begun, by the flow collections around them -/
  keys : List (Nat × PendingKey)
  finished : Bool

namespace TokenStream

def ofChars (cs : List Char) : TokenStream := ⟨.start cs, [], 0, 0, [], true, [], false⟩

def inFlow (s : TokenStream) : Bool := s.depth != 0

def push (token : Token) (s : TokenStream) : TokenStream := { s with queue := s.queue ++ [token] }

/-- Puts a token in front of the one with this number. -/
def insert (number : Nat) (token : Token) (s : TokenStream) : TokenStream :=
  let (before, after) := s.queue.splitAt (number - s.taken)
  { s with queue := before ++ token :: after }

/-- Pushes a token of some characters. -/
def pushChars (token : Token) (width : Nat) (s : TokenStream) : TokenStream :=
  { s.push token with cursor := s.cursor.advance width }

def closeWhile (p : Nat → Bool) (s : TokenStream) : TokenStream :=
  if s.inFlow then s
  else
    let kept := s.columns.dropWhile p
    { s with
      columns := kept
      queue := s.queue ++ List.replicate (s.columns.length - kept.length) .blockEnd }

def closeRight (s : TokenStream) : TokenStream := s.closeWhile (s.cursor.column < ·)

def closeAll (s : TokenStream) : TokenStream := s.closeWhile fun _ => true

/-- The column is to the right of the innermost block collection. -/
def isInside (column : Nat) (s : TokenStream) : Bool := s.columns.head?.all (· < column)

/-- Begins a block collection at the cursor if that is inside the innermost one. -/
def openHere (token : Token) (s : TokenStream) : TokenStream :=
  if s.isInside s.cursor.column then
    { s.push token with columns := s.cursor.column :: s.columns }
  else s

/-- A key lies on one line, in at most 1024 characters. -/
def isStale (s : TokenStream) (key : PendingKey) : Bool :=
  key.start.line != s.cursor.line || 1024 < s.cursor.index - key.start.index

/-- Gives up keys; where one is required, a colon is missing. -/
def dropKeys (p : Nat × PendingKey → Bool) (s : TokenStream) : Except Fault TokenStream :=
  if s.keys.any fun k => p k && k.2.required then .error (.token .missingColon)
  else .ok { s with keys := s.keys.filter (!p ·) }

def dropStaleKeys (s : TokenStream) : Except Fault TokenStream := s.dropKeys fun k => s.isStale k.2

/-- Gives up the key inside the innermost flow collection. -/
def dropKey (s : TokenStream) : Except Fault TokenStream := s.dropKeys fun k => k.1 == s.depth

def noteKey (s : TokenStream) : Except Fault TokenStream := do
  if s.allowsKey then
    let s ← s.dropKey
    let required := !s.inFlow && s.columns.head? == some s.cursor.column
    let key : PendingKey := ⟨s.taken + s.queue.length, required, s.cursor⟩
    return { s with keys := (s.depth, key) :: s.keys }
  else return s

/-- Moves to where the next token starts, over spaces, comments and line breaks. A new line may
begin with a key. -/
def skipGap : Nat → TokenStream → TokenStream
  | 0, s => s
  | fuel + 1, s =>
    let c := s.cursor.skipComment
    match c.takeBreak with
    | ([], c) => { s with cursor := c }
    | (_, c) => skipGap fuel { s with cursor := c, allowsKey := s.allowsKey || !s.inFlow }

/-- Moves to the next token; a byte order mark may stand in front of the first. -/
def toNext (s : TokenStream) : TokenStream :=
  let c := s.cursor
  let c := if c.index = 0 && c.peek 0 == some '\ufeff' then c.step else c
  skipGap (c.rest.length + 1) { s with cursor := c }

/-- The end of the text, of which every collection is an end too. -/
def textEnd (s : TokenStream) : Except Fault TokenStream := do
  let s ← s.closeAll.dropKey
  return { s.push .textEnd with allowsKey := false, keys := [], finished := true }

/-- A directive or the mark of a document ends all block collections. -/
def outermost (s : TokenStream) : Except Fault TokenStream := do
  let s ← s.closeAll.dropKey
  return { s with allowsKey := false }

def directive (s : TokenStream) : Except Fault TokenStream := do
  let s ← s.outermost
  let (d, c) ← Label.directive s.cursor
  return { s.push (.directive d) with cursor := c }

def marker (token : Token) (s : TokenStream) : Except Fault TokenStream :=
  s.outermost.map (·.pushChars token 3)

def flowStart (token : Token) (s : TokenStream) : Except Fault TokenStream := do
  let s ← s.noteKey
  return { s.pushChars token 1 with depth := s.depth + 1, allowsKey := true }

def flowEnd (token : Token) (s : TokenStream) : Except Fault TokenStream := do
  let s ← s.dropKey
  return { s.pushChars token 1 with depth := s.depth - 1, allowsKey := false }

def flowEntry (s : TokenStream) : Except Fault TokenStream := do
  let s ← s.dropKey
  return { s.pushChars .flowEntry 1 with allowsKey := true }

/-- Outside flow collections an entry, a key or a value stands only where a key may begin. -/
def openBlock (token : Token) (s : TokenStream) : Except Fault TokenStream :=
  if s.inFlow then .ok s
  else if s.allowsKey then .ok (s.openHere token)
  else .error (.token .misplaced)

def blockEntry (s : TokenStream) : Except Fault TokenStream := do
  let s ← (← s.openBlock .blockSequenceStart).dropKey
  return { s.pushChars .blockEntry 1 with allowsKey := true }

def key (s : TokenStream) : Except Fault TokenStream := do
  let s ← (← s.openBlock .blockMappingStart).dropKey
  return { s.pushChars .key 1 with allowsKey := !s.inFlow }

/-- A colon makes a key of what began at a noted place; without one the key is empty. -/
def value (s : TokenStream) : Except Fault TokenStream := do
  match s.keys.lookup s.depth with
  | some key =>
    let s := { s with keys := s.keys.filter (·.1 != s.depth), allowsKey := false }
    let s := s.insert key.number .key
    let column := key.start.column
    let s := if !s.inFlow && s.isInside column then
        { s.insert key.number .blockMappingStart with columns := column :: s.columns }
      else s
    return s.pushChars .value 1
  | none =>
    let s ← (← s.openBlock .blockMappingStart).dropKey
    return { s.pushChars .value 1 with allowsKey := !s.inFlow }

/-- A token that may begin a key, behind which none may begin. -/
def content (read : Cursor → Except Fault (Token × Cursor)) (s : TokenStream) :
    Except Fault TokenStream := do
  let s ← s.noteKey
  let (token, c) ← read s.cursor
  return { s.push token with cursor := c, allowsKey := false }

def quoted (quote : Char) (s : TokenStream) : Except Fault TokenStream :=
  s.content fun c => (Quoted.read quote c).map fun (cs, c) => (.scalar false cs, c)

def block (folds : Bool) (s : TokenStream) : Except Fault TokenStream := do
  let s ← s.dropKey
  let (cs, c) ← Block.read folds (s.columns.head?.elim 0 (· + 1)) s.cursor
  return { s.push (.scalar false cs) with cursor := c, allowsKey := true }

/-- Behind a plain scalar a key may begin if the scalar ends with its line. -/
def plain (s : TokenStream) : Except Fault TokenStream := do
  let s ← s.noteKey
  let (cs, last) := Plain.read s.inFlow (s.columns.head?.elim 0 (· + 1)) s.cursor
  return { s.push (.scalar true cs) with cursor := last.next, allowsKey := last.crossesLine }

/-- Marks that start no plain scalar. -/
def marks : List Char := "-?:,[]\x7b\x7d#&*!|>'\"%@\x60".toList

/-- A plain scalar starts with no mark, except a dash, or outside flow collections a question mark
or a colon, in front of no gap. -/
def startsPlain (s : TokenStream) (c : Char) : Bool :=
  !(isGap c || marks.contains c) ||
    (!s.cursor.gapAt 1 && (c = '-' || (!s.inFlow && (c = '?' || c = ':'))))

def token (c : Char) (s : TokenStream) : Except Fault TokenStream :=
  let atLineStart := s.cursor.column = 0
  let splits := s.inFlow || s.cursor.gapAt 1
  if atLineStart && c = '%' then s.directive
  else if atLineStart && s.cursor.atMarker then
    s.marker (if c = '-' then .documentStart else .documentEnd)
  else if c = '[' then s.flowStart .flowSequenceStart
  else if c = '\x7b' then s.flowStart .flowMappingStart
  else if c = ']' then s.flowEnd .flowSequenceEnd
  else if c = '\x7d' then s.flowEnd .flowMappingEnd
  else if c = ',' then s.flowEntry
  else if c = '-' && s.cursor.gapAt 1 then s.blockEntry
  else if c = '?' && splits then s.key
  else if c = ':' && splits then s.value
  else if c = '*' then s.content fun p => (Label.name p).map fun (cs, p) => (.reference cs, p)
  else if c = '&' then s.content fun p => (Label.name p).map fun (cs, p) => (.anchor cs, p)
  else if c = '!' then s.content fun p => (Label.tag p).map fun (label, p) => (.tag label, p)
  else if (c = '|' || c = '>') && !s.inFlow then s.block (c = '>')
  else if c = '\'' || c = '"' then s.quoted c
  else if s.startsPlain c then s.plain
  else .error (.token .noToken)

/-- Reads the next token ahead, with the ends of block collections in front of it. -/
def readAhead (s : TokenStream) : Except Fault TokenStream := do
  let s := (← s.toNext.dropStaleKeys).closeRight
  match s.cursor.rest with
  | [] => s.textEnd
  | c :: _ => s.token c

/-- The first token of the queue may still become part of a key. -/
def waits (s : TokenStream) : Bool := s.keys.any fun k => k.2.number == s.taken

/-- Reads ahead until the next token is certain. -/
def settle : Nat → TokenStream → Except Fault TokenStream
  | 0, s => .ok s
  | fuel + 1, s => do
    if s.finished then return s
    else if s.queue.isEmpty then settle fuel (← s.readAhead)
    else
      let s ← s.dropStaleKeys
      if s.waits then settle fuel (← s.readAhead) else return s

/-- The next token, and the stream with that token in front. -/
def peek (s : TokenStream) : Except Fault (Token × TokenStream) := do
  let s ← settle (s.cursor.rest.length + 2) s
  return (s.queue.head?.getD .textEnd, s)

def drop (s : TokenStream) : TokenStream :=
  { s with queue := s.queue.tail, taken := s.taken + 1 }

end TokenStream
end FieldPlan.Yaml
