import FieldPlan.Declaration
import FieldPlan.Model.Constraint
/-!
# Registries

Schemas and named constraints are collected in an open registry. Building checks the schemas
against each other and seals the registry: from then on it refuses every registration. A sealed
registry whose references are sound is a `Catalog`, on which look-ups and planning rest.
-/
namespace FieldPlan

structure Registry where
  schemas : List ResourceSchema
  /-- the class names of registered declarations, by type -/
  classes : List (String × String)
  constraints : List (String × Constraint)
  isBuilt : Bool

namespace Registry

def empty : Registry := ⟨[], [], [], false⟩

def find? (r : Registry) (type : String) : Option ResourceSchema :=
  r.schemas.find? (·.type == type)

def types (r : Registry) : List String := r.schemas.map (·.type)

/-- The problems of a relation: its target is a registered resource that declares the pinned
fields; without a target nothing is pinned. -/
def relationProblems (schemas : List ResourceSchema) (rel : RelationField) :
    List ReferenceProblem :=
  match rel.target with
  | none => if (rel.pinned.getD []).isEmpty then [] else [.pinnedWithoutTarget]
  | some t =>
    match schemas.find? (·.type == t) with
    | none => [.unknownTarget t]
    | some target =>
      ((rel.pinned.getD []).filter (!target.declares ·)).map (.unknownPinned · t)

def fieldProblems (schemas : List ResourceSchema) (constraints : List String) (f : Field) :
    List ReferenceProblem :=
  let named := (f.constraint?.filter (· != "")).toList
  (named.filter (!constraints.contains ·)).map .unknownConstraint ++
    match f.body with
    | .relation rel => relationProblems schemas rel
    | .aggregate a =>
      if a.kind != .count && (a.column.getD "").isEmpty then [.missingColumn a.kind] else []
    | _ => []

/-- The faults of schemas in view of each other and of the names of constraints. -/
def referenceFaults (schemas : List ResourceSchema) (constraints : List String) :
    List ReferenceFault :=
  schemas.flatMap fun s => s.fields.flatMap fun f =>
    (fieldProblems schemas constraints f).map (⟨s.type, f.name, ·⟩)

def faults (r : Registry) : List ReferenceFault :=
  referenceFaults r.schemas (r.constraints.map (·.1))

def constraint (r : Registry) (name : String) : Except ResourceError Constraint :=
  match r.constraints.lookup name with
  | some c => .ok c
  | none => .error (.unknownConstraint name)

def contains (r : Registry) (ref : ResourceRef) : Except ResourceError Bool :=
  ref.type.map fun t => (r.find? t).isSome

/-- The class name that a resource was registered under. -/
def className? (r : Registry) (ref : ResourceRef) : Except ResourceError (Option String) :=
  ref.type.map fun t => r.classes.lookup t

end Registry

/-- A sealed registry without faults. -/
structure Catalog where
  registry : Registry
  isBuilt : registry.isBuilt = true
  faults_eq_nil : registry.faults = []

namespace Catalog

def find? (c : Catalog) (type : String) : Option ResourceSchema := c.registry.find? type

def types (c : Catalog) : List String := c.registry.types

def schema (c : Catalog) (type : String) : Except ResourceError ResourceSchema :=
  match c.find? type with
  | some s => .ok s
  | none => .error (.unregistered type)

def schemaOf (c : Catalog) (ref : ResourceRef) : Except ResourceError ResourceSchema :=
  ref.type >>= c.schema

end Catalog
end FieldPlan
