import FieldPlan.Registry
/-!
# Operations on a registry

What can be done to a registry and asked of it, statement by statement: what an operation has
changed stays changed when it fails later on. Asking an open registry for a schema builds it first.
-/
namespace FieldPlan

namespace Registry

/-- A computation on a registry that may fail; the registry is there either way. -/
abbrev Action := ExceptT ResourceError (StateM Registry)

namespace Action

/-- The outcome on a registry, and what becomes of the registry. -/
def on {α : Type} (a : Action α) (r : Registry) : Except ResourceError α × Registry := a.run.run r

def assertOpen : Action Unit := do
  if (← get).isBuilt then throw (.schema [.alreadyBuilt])

/-- Adds a schema; a type can be registered once. -/
def registerSchema (s : ResourceSchema) : Action Unit := do
  assertOpen
  if ((← get).find? s.type).isSome then throw (.schema [.registeredTwice s.type])
  modify fun r => { r with schemas := r.schemas ++ [s] }

/-- Freezes a declaration and adds its schema. -/
def register (d : ResourceDeclaration) : Action Unit := do
  assertOpen
  let s ← d.schema
  registerSchema s
  modify fun r => { r with classes := r.classes ++ [(s.type, d.identity.className)] }

/-- Adds a named constraint, in the place of an earlier one of that name. -/
def registerConstraint (name : String) (c : Constraint) : Action Unit := do
  assertOpen
  modify fun r => { r with constraints := (r.constraints.filter (·.1 != name)) ++ [(name, c)] }

/-- Checks the references and seals the registry; building again changes nothing. -/
def build : Action Unit := do
  if !(← get).isBuilt then
    let faults := (← get).faults
    if !faults.isEmpty then throw (.schema (faults.map .reference))
    modify fun r => { r with isBuilt := true }

/-- The catalog of a registry, which is built if it is still open. -/
def catalog : Action Catalog := do
  build
  let r ← get
  if h : r.isBuilt = true ∧ r.faults = [] then return ⟨r, h.1, h.2⟩
  else throw (.schema (r.faults.map .reference))

/-- The schema of a resource; the registry is built before the resource is looked at. -/
def schema (ref : ResourceRef) : Action ResourceSchema := do
  build
  let type ← ref.type
  match (← get).find? type with
  | some s => return s
  | none => throw (.unregistered type)

def className? (ref : ResourceRef) : Action (Option String) := do (← get).className? ref

def constraint (name : String) : Action Constraint := do (← get).constraint name

def contains (ref : ResourceRef) : Action Bool := do (← get).contains ref

end Action

/-- The schema comes from a declaration. -/
def Declared (s : ResourceSchema) : Prop :=
  ∃ type fields defaults fixed model, ResourceSchema.build type fields defaults fixed model = .ok s

inductive Operation where
  | register (d : ResourceDeclaration)
  | registerSchema (s : ResourceSchema) (h : Declared s)
  | registerConstraint (name : String) (c : Constraint)
  | build
  /-- the schema, or its defaults, all its fields or its aggregates -/
  | schema (ref : ResourceRef)
  | resourceType (ref : ResourceRef)
  | className (ref : ResourceRef)
  | constraint (name : String)
  | contains (ref : ResourceRef)
  | types

namespace Operation

def isRegistration : Operation → Bool
  | register _ | registerSchema .. | registerConstraint .. => true
  | _ => false

def perform : Operation → Action Unit
  | register d => Action.register d
  | registerSchema s _ => Action.registerSchema s
  | registerConstraint name c => Action.registerConstraint name c
  | build => Action.build
  | schema ref => discard (Action.schema ref)
  | resourceType ref => discard (ref.type : Action String)
  | className ref => discard (Action.className? ref)
  | constraint name => discard (Action.constraint name)
  | contains ref => discard (Action.contains ref)
  | types => discard (return (← get).types : Action (List String))

end Operation

/-- A registry after operations, whether they succeed or fail. -/
def after (r : Registry) (ops : List Operation) : Registry :=
  ops.foldl (fun r op => (op.perform.on r).2) r

end Registry
end FieldPlan
