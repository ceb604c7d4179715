/-!
# Fields

The entries of a frozen schema. A field is a column, a computed value, a relation to other records
or an aggregate over them; `extras` names further relation paths that its value needs.
-/
namespace FieldPlan

inductive AggregateKind where
  | count
  | sum
  | average
  deriving DecidableEq, Repr

def AggregateKind.name : AggregateKind → String
  | count => "count"
  | sum => "sum"
  | average => "average"

def AggregateKind.all : List AggregateKind := [count, sum, average]

def AggregateKind.ofName? (s : String) : Option AggregateKind := all.find? fun k => k.name == s

/-- A relation to records of another resource, or of none that is declared. -/
structure RelationField where
  /-- the relationship of the model -/
  source : String
  target : Option String
  /-- the one sub-field that stands for the relation -/
  accessor : Option String
  /-- the child fields planned below the relation, whatever is requested -/
  pinned : Option (List String)
  constraint : Option String
  many : Bool
  deriving DecidableEq, Repr

structure AggregateField where
  kind : AggregateKind
  source : String
  column : Option String
  /-- loaded when no aggregate is asked for -/
  isDefault : Bool
  constraint : Option String
  deriving DecidableEq, Repr

inductive FieldBody where
  | scalar (source : String)
  | timestamp (source : String)
  /-- a value found by following attributes; without a path it has no value -/
  | computed (path : Option (List String))
  | relation (r : RelationField)
  | aggregate (a : AggregateField)
  deriving DecidableEq, Repr

structure Field where
  name : String
  body : FieldBody
  extras : List String
  deriving DecidableEq, Repr

namespace Field

def kindName (f : Field) : String :=
  match f.body with
  | .scalar _ => "scalar"
  | .timestamp _ => "timestamp"
  | .computed _ => "computed"
  | .relation _ => "relation"
  | .aggregate a => a.kind.name

def kindNames : List String :=
  ["scalar", "timestamp", "computed", "relation"] ++ AggregateKind.all.map AggregateKind.name

def relation? (f : Field) : Option RelationField :=
  match f.body with
  | .relation r => some r
  | _ => none

def aggregate? (f : Field) : Option AggregateField :=
  match f.body with
  | .aggregate a => some a
  | _ => none

def isAggregate (f : Field) : Bool := f.aggregate?.isSome

def isRelation (f : Field) : Bool := f.relation?.isSome

/-- The column or relationship that the field reads. -/
def source? (f : Field) : Option String :=
  match f.body with
  | .scalar s | .timestamp s => some s
  | .computed _ => none
  | .relation r => some r.source
  | .aggregate a => some a.source

def column? (f : Field) : Option String :=
  match f.body with
  | .scalar s | .timestamp s => some s
  | _ => none

def constraint? (f : Field) : Option String :=
  match f.body with
  | .relation r => r.constraint
  | .aggregate a => a.constraint
  | _ => none

/-- The type of the resource that a relation embeds: it has a target and no accessor. -/
def embedded? (f : Field) : Option String :=
  f.relation?.bind fun r => if r.accessor.isNone then r.target else none

end Field
end FieldPlan
