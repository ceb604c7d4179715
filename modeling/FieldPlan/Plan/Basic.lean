import FieldPlan.Entries
import FieldPlan.Field
import FieldPlan.Signature
/-!
# Load plans

What to load along which relation path, and which aggregates to compute. Loads of one path are
merged: a full load absorbs projections, projections are united, and two different resources or
constraints cannot share a path.
-/
namespace FieldPlan

inductive PlanError where
  | tooDeep (path : String) (maxDepth : Nat)
  | resources (path first second : String)
  | constraints (path first second : String)
  deriving DecidableEq, Repr

def PlanError.message : PlanError → String
  | tooDeep path maxDepth =>
    s!"Relation path '{path}' exceeds maximum nesting depth of {maxDepth}"
  | resources path first second => s!"Path '{path}' resolves to both '{first}' and '{second}'"
  | constraints path first second =>
    s!"Path '{path}' is loaded with conflicting constraints '{first}' and '{second}'"

/-- A path extended by a segment; the empty path is the root. -/
def joinPath (path segment : String) : String :=
  if path = "" then segment else path ++ "." ++ segment

/-- The number of segments between the dots of a path. -/
def pathDepth (path : String) : Nat := path.toList.count '.' + 1

/-- What to load at one path; without columns, everything. -/
structure RelationLoad where
  resource : Option String := none
  columns : Option (List String) := none
  constraint : Option String := none
  many : Bool := false
  /-- the resource stands above this path already -/
  cyclic : Bool := false
  deriving DecidableEq, Repr, Inhabited

/-- The first of two names unless it is absent or empty. -/
def firstGiven (a b : Option String) : Option String :=
  match a with
  | none => b
  | some name => if name = "" then b else some name

/-- Two names that are given and differ. -/
def clash? (a b : Option String) : Option (String × String) :=
  match a, b with
  | some x, some y => if x ≠ "" ∧ y ≠ "" ∧ x ≠ y then some (x, y) else none
  | _, _ => none

/-- The columns that two loads need together. -/
def unionColumns : Option (List String) → Option (List String) → Option (List String)
  | some a, some b => some (sortNames (unique (a ++ b)))
  | _, _ => none

namespace RelationLoad

def isProjection (l : RelationLoad) : Bool := l.columns.isSome

/-- One load for what two loads of a path need. -/
def merge (a b : RelationLoad) (path : String) : Except PlanError RelationLoad :=
  match clash? a.resource b.resource with
  | some (x, y) => .error (.resources path x y)
  | none =>
    match clash? a.constraint b.constraint with
    | some (x, y) => .error (.constraints path x y)
    | none => .ok {
        resource := firstGiven a.resource b.resource
        columns := unionColumns a.columns b.columns
        constraint := firstGiven a.constraint b.constraint
        many := a.many || b.many
        cyclic := a.cyclic && b.cyclic }

/-- One load for all loads of a path, merged from the first on. -/
def mergeAll (path : String) (first : RelationLoad) (rest : List RelationLoad) :
    Except PlanError RelationLoad :=
  rest.foldlM (fun a b => a.merge b path) first

end RelationLoad

/-- One aggregate to compute; its relation starts from `path`, which is empty at the root. -/
structure AggregateLoad where
  relation : String
  kind : AggregateKind
  column : Option String
  constraint : Option String
  path : String
  deriving DecidableEq, Repr

def AggregateField.load (a : AggregateField) (path : String) : AggregateLoad :=
  ⟨a.source, a.kind, a.column, a.constraint, path⟩

structure LoadPlan where
  relations : Entries RelationLoad
  aggregates : Entries AggregateLoad
  deriving DecidableEq, Repr, Inhabited

namespace LoadPlan

def empty : LoadPlan := ⟨[], []⟩

def paths (p : LoadPlan) : List String := p.relations.keys

def isEmpty (p : LoadPlan) : Bool := p.relations.isEmpty && p.aggregates.isEmpty

/-- Adds aggregates to those of the plan, which win over new ones of their alias. -/
def withAggregates (p : LoadPlan) (aggregates : Entries AggregateLoad) : LoadPlan :=
  { p with
    aggregates :=
      (p.aggregates.foldl (fun es e => es.set e.1 e.2) (Entries.ofList aggregates)).sorted }

/-- Adds a load at a path of at most `maxDepth` segments, merged with what is there. -/
def addLoad (maxDepth : Nat) (p : LoadPlan) (path : String) (l : RelationLoad) :
    Except PlanError LoadPlan :=
  if maxDepth < pathDepth path then .error (.tooDeep path maxDepth)
  else match p.relations.get? path with
    | none => .ok { p with relations := p.relations.set path l }
    | some there =>
      (there.merge l path).map fun m => { p with relations := p.relations.set path m }

/-- Adds an aggregate unless its key is taken. -/
def addAggregate (p : LoadPlan) (key : String) (a : AggregateLoad) : LoadPlan :=
  { p with aggregates := Entries.setIfAbsent key a p.aggregates }

/-- The plan with its paths and its keys in ascending order. -/
def sorted (p : LoadPlan) : LoadPlan := ⟨p.relations.sorted, p.aggregates.sorted⟩

end LoadPlan
end FieldPlan
