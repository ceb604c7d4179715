import FieldPlan.Yaml.Value
/-!
# Nodes

The tree of a document before its kinds are put to use. Each collection carries what it stands for,
so that an alias costs no more than the node it names.

What a collection holds is looked at only after the whole level around it. Of several nodes that
stand for nothing the one of the outermost level counts, and in a level the first.
-/
namespace FieldPlan.Yaml

/-- Why a node stands for nothing, and how many levels below the node the cause lies. -/
structure Misfit where
  depth : Nat
  fault : Fault
  deriving Repr

abbrev Meaning := Except Misfit Value

/-- A node with its kind. -/
inductive Node where
  | scalar (tag : Tag) (text : List Char)
  | sequence (tag : Tag) (items : List Node) (meaning : Meaning)
  | mapping (tag : Tag) (entries : List (Node × Node)) (meaning : Meaning)
  /-- an alias of a collection around it -/
  | enclosing (isMapping : Bool)

namespace Node

/-- What stands where a node is left out. -/
def absent : Node := .scalar .null []

def tag : Node → Tag
  | scalar t _ => t
  | sequence t _ _ => t
  | mapping t _ _ => t
  | enclosing isMapping => if isMapping then .mapping else .sequence

def misfit {α : Type} (depth : Nat) (cause : NodeFault) : Except Misfit α :=
  .error ⟨depth, .node cause⟩

/-- What a text stands for under a tag; a tag of collections fails only a level further down. -/
def scalarMeaning (tag : Tag) (text : List Char) : Meaning :=
  (Value.ofScalar tag text).mapError fun e => ⟨if tag.isCollection then 1 else 0, e⟩

def meaning : Node → Meaning
  | scalar tag text => scalarMeaning tag text
  | sequence _ _ m => m
  | mapping _ _ m => m
  | enclosing isMapping => .ok (if isMapping then .mapping [] else .sequence [])

mutual

/-- The text of a scalar, or of a mapping that holds one under its value key. -/
def text? : Node → Option (List Char)
  | scalar _ text => some text
  | mapping _ entries _ => heldText? entries
  | _ => none

def heldText? : List (Node × Node) → Option (List Char)
  | [] => none
  | (key, node) :: rest => if key.tag = .value then node.text? else heldText? rest

end

/-- A value key is a text where a mapping is meant as such. -/
def asText : Node → Node
  | scalar .value text => .scalar .text text
  | node => node

/-- Entries that a mapping takes over, and its own. -/
structure Parts where
  taken : List (Node × Node)
  own : List (Node × Node)

mutual

/-- The entries without merge keys, those of the merged mappings apart. -/
def parts : List (Node × Node) → Except NodeFault Parts
  | [] => .ok ⟨[], []⟩
  | (key, node) :: rest =>
    if key.tag = .merge then do
      let new ← node.merged
      let p ← parts rest
      return ⟨new ++ p.taken, p.own⟩
    else (parts rest).map fun p => ⟨p.taken, (key.asText, node) :: p.own⟩

/-- The entries that a node gives to the mapping it is merged into; of several mappings the
earlier ones win, so that they come last. -/
def merged : Node → Except NodeFault (List (Node × Node))
  | mapping _ entries _ => (parts entries).map fun p => p.taken ++ p.own
  | sequence _ items _ => mergedItems items
  | enclosing _ => .ok []
  | scalar _ _ => .error .unmergeable

def mergedItems : List Node → Except NodeFault (List (Node × Node))
  | [] => .ok []
  | mapping _ entries _ :: rest => do
    let p ← parts entries
    let later ← mergedItems rest
    return later ++ p.taken ++ p.own
  | enclosing _ :: rest => mergedItems rest
  | _ :: _ => .error .unmergeable

end

/-- The misfit that is met first. -/
def first? (misfits : List Misfit) : Option Misfit :=
  misfits.foldl (fun found m =>
    match found with
    | none => some m
    | some f => if m.depth < f.depth then some m else some f) none

/-- What parts a level below stand for, if all stand for something. -/
def gather (meanings : List Meaning) : Except Misfit (List Value) :=
  let misfits := meanings.filterMap fun m =>
    match m with
    | .error e => some e
    | .ok _ => none
  match first? misfits with
  | some e => .error { e with depth := e.depth + 1 }
  | none => .ok (meanings.filterMap Except.toOption)

/-- What a key stands for; a collection can be no key. -/
def keyMeaning (node : Node) : Meaning :=
  if node.tag.isCollection then misfit 0 .collectionAsKey else node.meaning

/-- Keys and values in turn, as pairs. -/
def inPairs : List Value → List (Value × Value)
  | k :: v :: rest => (k, v) :: inPairs rest
  | _ => []

/-- What the entries of a mapping stand for, those it takes over first. -/
def entriesMeaning (entries : List (Node × Node)) : Except Misfit (List (Value × Value)) :=
  match parts entries with
  | .error e => misfit 1 e
  | .ok p =>
    (gather ((p.taken ++ p.own).flatMap fun (key, node) => [key.keyMeaning, node.meaning])).map
      inPairs

/-- What a mapping of one entry stands for among pairs. -/
def pairMeanings : Node → List Meaning
  | mapping _ [(key, node)] _ => [key.meaning, node.meaning]
  | _ => [misfit 0 .notPair]

def sequenceMeaning (tag : Tag) (items : List Node) : Meaning :=
  match tag with
  | .sequence => (gather (items.map meaning)).map .sequence
  | .pairs =>
    (gather (items.flatMap pairMeanings)).map fun vs =>
      .sequence ((inPairs vs).map fun (k, v) => .sequence [k, v])
  | .mapping | .set => misfit 1 .wrongKind
  | .merge | .value | .unknown => misfit 0 .unknownTag
  | _ => misfit 0 .wrongKind

def mappingMeaning (tag : Tag) (entries : List (Node × Node)) : Meaning :=
  match tag with
  | .mapping => (entriesMeaning entries).map .mapping
  | .set => (entriesMeaning entries).map fun es => .set (es.map (·.1))
  | .sequence | .pairs => misfit 1 .wrongKind
  | .merge | .value | .unknown => misfit 0 .unknownTag
  | _ =>
    match heldText? entries with
    | some text => scalarMeaning tag text
    | none => misfit 0 .wrongKind

def ofItems (tag : Tag) (items : List Node) : Node :=
  .sequence tag items (sequenceMeaning tag items)

def ofEntries (tag : Tag) (entries : List (Node × Node)) : Node :=
  .mapping tag entries (mappingMeaning tag entries)

end Node
end FieldPlan.Yaml
