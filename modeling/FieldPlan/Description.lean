import FieldPlan.Registry.Operation
/-!
# Descriptions

What a client can learn about a resource: the kinds of its fields with what belongs to each kind,
the fields shown by default and those shown always.
-/
namespace FieldPlan

def Field.description (f : Field) : Json :=
  let kind := ("kind", Json.string f.kindName)
  let text (s : Option String) : Json := (s.map Json.string).getD .null
  match f.body with
  | .relation r =>
    let accessor := (r.accessor.filter (· != "")).toList.map fun a => ("accessor", Json.string a)
    .object ([kind, ("target", text r.target), ("many", .bool r.many)] ++ accessor)
  | .aggregate a =>
    let column := (a.column.filter (· != "")).toList.map fun c => ("column", Json.string c)
    .object ([kind, ("relation", .string a.source)] ++ column ++ [("default", .bool a.isDefault)])
  | _ => .object [kind]

/-- A resource as clients see it. -/
structure Description where
  type : String
  fields : List (String × Json)
  defaults : List String
  fixed : List String

def ResourceSchema.describe (s : ResourceSchema) : Description where
  type := s.type
  fields := s.fields.map fun f => (f.name, f.description)
  defaults := s.defaults
  fixed := s.fixed

namespace Catalog

def descriptions (c : Catalog) : List Description := c.registry.schemas.map (·.describe)

def description? (c : Catalog) (type : String) : Option Description :=
  (c.find? type).map (·.describe)

end Catalog

/-- The descriptions of all resources; a registry that holds schemas is built for them. -/
def Registry.Action.descriptions : Registry.Action (List Description) := do
  if (← get).schemas.isEmpty then return []
  return (← Registry.Action.catalog).descriptions

/-- The computed field's value on a record: the attributes of the path, one after the other. -/
def followPath (record : Json) : List String → Option Json
  | [] => some record
  | name :: rest =>
    match record with
    | .object entries => (entries.lookup name).bind (followPath · rest)
    | _ => none

end FieldPlan
