import FieldPlan.Field
import FieldPlan.Signature
/-!
# Schemas

The frozen form of one resource: its fields in the order of their declaration, the fields shown
when none are requested, and those shown always. Building a schema reports every duplicate name and
every default that is not a declared field or is an aggregate.
-/
namespace FieldPlan

/-- Where a fault lies: a resource, a field of it, or neither. -/
def location (resource field : Option String) : String :=
  let parts := [resource, field].filterMap fun p => p.filter (· != "")
  "[" ++ (if parts.isEmpty then "global" else String.intercalate "." parts) ++ "]"

def located (resource field : Option String) (message : String) : String :=
  location resource field ++ " " ++ message

/-- What is wrong with a field in view of the other schemas. -/
inductive ReferenceProblem where
  | unknownConstraint (name : String)
  | unknownTarget (type : String)
  | pinnedWithoutTarget
  | unknownPinned (child target : String)
  | missingColumn (kind : AggregateKind)
  deriving DecidableEq, Repr

def ReferenceProblem.message : ReferenceProblem → String
  | unknownConstraint name => s!"Unknown constraint '{name}'"
  | unknownTarget type => s!"Unknown target resource '{type}'"
  | pinnedWithoutTarget => "Pinned fields require a target resource"
  | unknownPinned child target => s!"Pinned field '{child}' not in {target}"
  | missingColumn kind => s!"{kind.name} aggregate requires a column"

structure ReferenceFault where
  resource : String
  field : String
  problem : ReferenceProblem
  deriving DecidableEq, Repr

def ReferenceFault.message (f : ReferenceFault) : String :=
  located (some f.resource) (some f.field) f.problem.message

/-- Why a declaration cannot become part of a registry. -/
inductive SchemaFault where
  | duplicateField (resource field : String)
  | undeclaredDefault (resource field : String)
  | aggregateDefault (resource field : String)
  | registeredTwice (resource : String)
  | alreadyBuilt
  | reference (fault : ReferenceFault)
  deriving DecidableEq, Repr

def SchemaFault.message : SchemaFault → String
  | duplicateField r f => s!"{r}: duplicate field '{f}'"
  | undeclaredDefault r f => s!"{r}: default field '{f}' not declared"
  | aggregateDefault r f => s!"{r}: aggregate '{f}' cannot be a default field"
  | registeredTwice r => s!"Resource '{r}' registered twice"
  | alreadyBuilt => "Registry is already built; register resources at startup"
  | reference f => f.message

structure ResourceSchema where
  type : String
  fields : List Field
  defaults : List String
  fixed : List String
  /-- the model that the resource shows -/
  model : Option String
  deriving DecidableEq, Repr

namespace ResourceSchema

def get? (s : ResourceSchema) (name : String) : Option Field := s.fields.find? (·.name == name)

def declares (s : ResourceSchema) (name : String) : Bool := (s.get? name).isSome

def names (s : ResourceSchema) : List String := s.fields.map (·.name)

/-- Every field but the aggregates, which are shown only where they are asked for. -/
def allFields (s : ResourceSchema) : List String :=
  (s.fields.filter (!·.isAggregate)).map (·.name)

def aggregateFields (s : ResourceSchema) : List String :=
  (s.fields.filter (·.isAggregate)).map (·.name)

def relations (s : ResourceSchema) : List Field := s.fields.filter (·.isRelation)

def aggregates (s : ResourceSchema) : List Field := s.fields.filter (·.isAggregate)

/-- The first aggregate declared of this kind over this relationship and column. -/
def findAggregate? (s : ResourceSchema) (kind : AggregateKind) (source : String)
    (column : Option String) : Option Field :=
  s.fields.find? fun f =>
    f.aggregate?.any fun a => a.kind == kind && a.source == source && a.column == column

/-- The first field of each name, and a fault for each later one. -/
def distinctFields (type : String) : List Field → List Field → List Field × List SchemaFault
  | seen, [] => (seen.reverse, [])
  | seen, f :: rest =>
    if seen.any (·.name == f.name) then
      let (fields, faults) := distinctFields type seen rest
      (fields, .duplicateField type f.name :: faults)
    else distinctFields type (f :: seen) rest

/-- The fault of one default name, if there is one. -/
def defaultFault? (type : String) (fields : List Field) (name : String) : Option SchemaFault :=
  match fields.find? (·.name == name) with
  | none => some (.undeclaredDefault type name)
  | some f => if f.isAggregate then some (.aggregateDefault type name) else none

/-- A schema of declared fields, or every fault of the declaration. Without given defaults, all
fields but the aggregates are defaults. -/
def build (type : String) (declared : List Field) (defaults : Option (List String))
    (fixed : List String) (model : Option String) : Except (List SchemaFault) ResourceSchema :=
  let (fields, duplicates) := distinctFields type [] declared
  let defaultNames := match defaults with
    | none => (fields.filter (!·.isAggregate)).map (·.name)
    | some names => unique names
  let faults := duplicates ++ defaultNames.filterMap (defaultFault? type fields)
  if faults.isEmpty then
    .ok { type, fields, defaults := defaultNames, fixed := unique fixed, model }
  else .error faults

end ResourceSchema
end FieldPlan
