import FieldPlan.Yaml.Node
import FieldPlan.Yaml.Token
/-!
# Documents

The value of a text that is one document: its tokens in the order of the grammar, aliases replaced
by the nodes they name.
-/
namespace FieldPlan.Yaml

structure Progress where
  stream : TokenStream
  /-- what the handles of tags stand for -/
  handles : List (List Char × List Char)
  /-- the nodes with an anchor, the last first -/
  anchors : List (List Char × Node)

abbrev Reading := StateT Progress (Except Fault)

namespace Document

def next : Reading Token := do
  let p ← get
  let (token, stream) ← p.stream.peek
  set { p with stream }
  return token

/-- Takes the next token, which has been looked at. -/
def drop : Reading Unit := modify fun p => { p with stream := p.stream.drop }

def fail {α : Type} (cause : OrderFault) : Reading α := throw (.order cause)

def named (name : List Char) : Reading Node := do
  match (← get).anchors.lookup name with
  | some node => return node
  | none => throw (.name .unknownAlias)

def bindAnchor (anchor : Option (List Char)) (node : Node) : Reading Unit :=
  match anchor with
  | some name => modify fun p => { p with anchors := (name, node) :: p.anchors }
  | none => return ()

/-- An anchor names one node only. -/
def checkAnchor (anchor : Option (List Char)) : Reading Unit := do
  let anchors := (← get).anchors
  if anchor.any fun name => (anchors.lookup name).isSome then throw (.name .repeatedAnchor)

def anchored (anchor : Option (List Char)) (node : Node) : Reading Node := do
  checkAnchor anchor
  bindAnchor anchor node
  return node

/-- A collection under its anchor, which names it inside the collection too. -/
def collection (anchor : Option (List Char)) (isMapping : Bool) (read : Reading Node) :
    Reading Node := do
  checkAnchor anchor
  bindAnchor anchor (.enclosing isMapping)
  let node ← read
  bindAnchor anchor node
  return node

/-- The name and the tag in front of a node. -/
structure Properties where
  anchor : Option (List Char)
  tag : Option (List Char)

/-- The tag of a label, its handle replaced by what it stands for. -/
def tagName (label : TagLabel) : Reading (List Char) := do
  match label.handle with
  | none => return label.suffix
  | some handle =>
    match (← get).handles.lookup handle with
    | some stem => return stem ++ label.suffix
    | none => fail .unknownHandle

def anchor? : Reading (Option (List Char)) := do
  match ← next with
  | .anchor name =>
    drop
    return some name
  | _ => return none

def label? : Reading (Option TagLabel) := do
  match ← next with
  | .tag label =>
    drop
    return some label
  | _ => return none

/-- An anchor and a tag, in any order. -/
def properties : Reading Properties := do
  let before ← anchor?
  let label ← label?
  let after ← if before.isNone && label.isSome then anchor? else pure none
  let tag ← label.mapM tagName
  return ⟨before <|> after, tag⟩

/-- The tag of a node by its name; without one, or under a lone mark, the tag of its form. -/
def Properties.tagOr (props : Properties) (form : Tag) : Tag :=
  match props.tag with
  | none => form
  | some name => if name = ['!'] then form else .ofName name

/-- The tag of a scalar. Quotes make a text, unless a lone mark asks for the form. -/
def Properties.scalarTag (props : Properties) (isPlain : Bool) (text : List Char) : Tag :=
  props.tagOr (if isPlain || props.tag.isSome then .ofPlain text else .text)

/-- Nothing stands in front of one of these tokens. -/
def isEntryEnd : Token → Bool
  | .key | .value | .blockEnd => true
  | _ => false

def isItemEnd : Token → Bool
  | .blockEntry | .blockEnd => true
  | _ => false

def isPairEnd : Token → Bool
  | .flowEntry | .flowSequenceEnd => true
  | _ => false

def isFlowEntryEnd : Token → Bool
  | .flowEntry | .flowMappingEnd => true
  | _ => false

/-- A node unless the next token ends it. -/
def orAbsent (ends : Token → Bool) (read : Reading Node) : Reading Node := do
  if ends (← next) then return .absent else read

/-- The value behind a colon, nothing where there is none. -/
def valueBefore (ends : Token → Bool) (read : Reading Node) : Reading Node := do
  match ← next with
  | .value =>
    drop
    orAbsent ends read
  | _ => return .absent

/-- A comma stands between the members of a flow collection. -/
def comma (isFirst : Bool) : Reading Unit := do
  if !isFirst then
    match ← next with
    | .flowEntry => drop
    | _ => fail .unclosedFlow

mutual

/-- The node that comes next, in a block or in a flow collection; a sequence inside a block mapping
need not be indented. The fuel bounds the tokens, the room the collections within each other. -/
def node : Nat → Nat → Bool → Bool → Reading Node
  | 0, _, _, _ => fail .missingNode
  | fuel + 1, room, inBlock, unindented => do
    match ← next with
    | .reference name =>
      drop
      named name
    | _ =>
      let props ← properties
      let sequence (items : Reading (List Node)) : Reading Node :=
        collection props.anchor false ((Node.ofItems (props.tagOr .sequence)) <$> items)
      let mapping (entries : Reading (List (Node × Node))) : Reading Node :=
        collection props.anchor true ((Node.ofEntries (props.tagOr .mapping)) <$> entries)
      let enter {α : Type} (read : Nat → Reading α) : Reading α :=
        match room with
        | 0 => throw .tooDeep
        | room + 1 => read room
      let scalar (isPlain : Bool) (text : List Char) : Reading Node :=
        anchored props.anchor (.scalar (props.scalarTag isPlain text) text)
      let isNamed := props.anchor.isSome || props.tag.isSome
      match ← next with
      | .scalar isPlain text =>
        drop
        scalar isPlain text
      | .flowSequenceStart =>
        drop
        sequence (enter fun room => flowItems fuel room true)
      | .flowMappingStart =>
        drop
        mapping (enter fun room => flowEntries fuel room true)
      | token =>
        if unindented && token = .blockEntry then
          sequence (enter fun room => unindentedItems fuel room)
        else if inBlock && token = .blockSequenceStart then
          drop
          sequence (enter fun room => blockItems fuel room)
        else if inBlock && token = .blockMappingStart then
          drop
          mapping (enter fun room => blockEntries fuel room)
        else if isNamed then scalar true []
        else fail .missingNode

def blockItems : Nat → Nat → Reading (List Node)
  | 0, _ => fail .unclosedBlock
  | fuel + 1, room => do
    match ← next with
    | .blockEntry =>
      drop
      let item ← orAbsent isItemEnd (node fuel room true false)
      return item :: (← blockItems fuel room)
    | .blockEnd =>
      drop
      return []
    | _ => fail .unclosedBlock

/-- The items of a sequence that is not indented end in front of anything else. -/
def unindentedItems : Nat → Nat → Reading (List Node)
  | 0, _ => return []
  | fuel + 1, room => do
    match ← next with
    | .blockEntry =>
      drop
      let item ← orAbsent (fun t => isItemEnd t || isEntryEnd t) (node fuel room true false)
      return item :: (← unindentedItems fuel room)
    | _ => return []

def blockEntries : Nat → Nat → Reading (List (Node × Node))
  | 0, _ => fail .unclosedBlock
  | fuel + 1, room => do
    match ← next with
    | .key =>
      drop
      let key ← orAbsent isEntryEnd (node fuel room true true)
      let value ← valueBefore isEntryEnd (node fuel room true true)
      return (key, value) :: (← blockEntries fuel room)
    | .blockEnd =>
      drop
      return []
    | _ => fail .unclosedBlock

/-- The items of a flow sequence; an entry of a mapping may stand for the mapping. -/
def flowItems : Nat → Nat → Bool → Reading (List Node)
  | 0, _, _ => fail .unclosedFlow
  | fuel + 1, room, isFirst => do
    if (← next) != .flowSequenceEnd then comma isFirst
    match ← next with
    | .flowSequenceEnd =>
      drop
      return []
    | .key =>
      drop
      if room = 0 then throw .tooDeep
      let key ← orAbsent (fun t => isPairEnd t || t == .value) (node fuel (room - 1) false false)
      let value ← valueBefore isPairEnd (node fuel (room - 1) false false)
      return .ofEntries .mapping [(key, value)] :: (← flowItems fuel room false)
    | _ =>
      let item ← node fuel room false false
      return item :: (← flowItems fuel room false)

/-- The entries of a flow mapping; a key may have no colon. -/
def flowEntries : Nat → Nat → Bool → Reading (List (Node × Node))
  | 0, _, _ => fail .unclosedFlow
  | fuel + 1, room, isFirst => do
    if (← next) != .flowMappingEnd then comma isFirst
    match ← next with
    | .flowMappingEnd =>
      drop
      return []
    | .key =>
      drop
      let key ← orAbsent (fun t => isFlowEntryEnd t || t == .value) (node fuel room false false)
      let value ← valueBefore isFlowEntryEnd (node fuel room false false)
      return (key, value) :: (← flowEntries fuel room false)
    | _ =>
      let key ← node fuel room false false
      return (key, .absent) :: (← flowEntries fuel room false)

end

/-- The handles that need no directive. -/
def defaultHandles : List (List Char × List Char) :=
  [(['!'], ['!']), (['!', '!'], Tag.domain.toList)]

/-- Reads directives; the version may be given once, and each handle once. -/
def directives : Nat → Bool → Reading Unit
  | 0, _ => return ()
  | fuel + 1, hasVersion => do
    match ← next with
    | .directive (.version major _) =>
      drop
      if hasVersion then fail .repeatedVersion
      else if major != 1 then fail .unknownVersion
      else directives fuel true
    | .directive (.handle name stem) =>
      drop
      if ((← get).handles.lookup name).isSome then fail .repeatedHandle
      else
        modify fun p => { p with handles := (name, stem) :: p.handles }
        directives fuel hasVersion
    | .directive .other =>
      drop
      directives fuel hasVersion
    | _ => return ()

/-- The directives of a document and the mark of its start. -/
def opening (fuel : Nat) : Reading Unit := do
  modify fun p => { p with handles := [] }
  directives fuel false
  modify fun p => { p with handles := p.handles ++ defaultHandles }
  match ← next with
  | .documentStart => drop
  | _ => fail .missingMarker

def skipEnds : Nat → Reading Unit
  | 0 => return ()
  | fuel + 1 => do
    match ← next with
    | .documentEnd =>
      drop
      skipEnds fuel
    | _ => return ()

def isDocumentEnd : Token → Bool
  | .directive _ | .documentStart | .documentEnd | .textEnd => true
  | _ => false

def maxDepth : Nat := 488

/-- The only document of a text; the first one needs no mark if nothing stands in front of it. -/
def root (fuel : Nat) : Reading Node := do
  let first ← next
  if first = .textEnd then return .absent
  else
    let node ←
      if isDocumentEnd first && first != .documentEnd then do
        opening fuel
        orAbsent isDocumentEnd (node fuel maxDepth true false)
      else node fuel maxDepth true false
    skipEnds fuel
    if (← next) = .textEnd then return node
    else
      opening fuel
      throw (.name .secondDocument)

/-- A character that may stand in a document. -/
def isAllowed (c : Char) : Bool :=
  let n := c.toNat
  c = '\t' || c = '\n' || (0x20 ≤ n && n ≤ 0x7e) || n = 0x85 || (0xa0 ≤ n && n ≤ 0xfffd) ||
    0x10000 ≤ n

/-- Carriage returns, alone or in front of a line feed, as line feeds. -/
def unifyBreaks : List Char → List Char
  | [] => []
  | '\r' :: '\n' :: rest => '\n' :: unifyBreaks rest
  | c :: rest => (if c = '\r' then '\n' else c) :: unifyBreaks rest

end Document

def read (text : String) : Except Fault Value := do
  let cs := Document.unifyBreaks text.toList
  if !cs.all Document.isAllowed then throw .character
  let start : Progress := ⟨.ofChars cs, Document.defaultHandles, []⟩
  let (node, _) ← (Document.root (8 * (cs.length + 8))).run start
  node.meaning.mapError (·.fault)

end FieldPlan.Yaml
