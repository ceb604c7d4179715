import FieldPlan.Cache.Key
import FieldPlan.Cache.Task
import FieldPlan.Json.Order
import FieldPlan.Plan.Data
import FieldPlan.Registry
/-!
# Remembered metadata

What the cache holds: plans, and other metadata as plain data, such as lists of names. `Work` is a
task over such metadata; it fails with a cause from any part of the library.
-/
namespace FieldPlan

inductive Metadata where
  | data (j : Json)
  | plan (p : LoadPlan)

inductive ServiceError where
  | resource (e : ResourceError)
  /-- a resource shows a default that it does not declare -/
  | undeclared (type name : String)
  | plan (e : PlanError)
  | model (e : ModelError)
  | key (e : Cache.KeyError)
  /-- remembered data has no members where a list was stored -/
  | notAList
  /-- remembered data has no keys where a map was stored -/
  | notAMap

abbrev Work : Type → Type 1 := Cache.Task ServiceError Metadata

namespace Metadata

/-- Data is stored as it is. -/
def dataCodec [Room] : Cache.Codec Metadata :=
  .json (fun m => match m with
      | .data j => .ok j
      | .plan p => .ok p.toData)
    (fun j => some (.data j))

/-- Plans are stored as records; other data is refused when it is read back. -/
def planCodec [Room] : Cache.Codec Metadata :=
  .json (fun m => match m with
      | .data j => .ok j
      | .plan p => .ok p.toData)
    (fun j => (LoadPlan.ofData? j).map .plan)

end Metadata

namespace Work

open Cache

def ofResource {α : Type} (r : Except ResourceError α) : Work α := .ofExcept (r.mapError .resource)

def ofPlan {α : Type} (r : Except PlanError α) : Work α := .ofExcept (r.mapError .plan)

def ofModel {α : Type} (r : Except ModelError α) : Work α := .ofExcept (r.mapError .model)

def modelError {α : Type} (e : ModelError) : Work α := .raise (.model e)

def key (space : String) (t : Template) (args : List String) : String := t.fill space args

def cachedData [Room] (key : String) (body : Work Json) : Work Json :=
  .bind (.cached key Metadata.dataCodec (.bind body fun j => .pure (.data j))) fun m =>
    match m with
    | .data j => .pure j
    | .plan p => .pure p.toData

def cachedPlan [Room] (key : String) (body : Work LoadPlan) : Work LoadPlan :=
  .bind (.cached key Metadata.planCodec (.bind body fun p => .pure (.plan p))) fun m =>
    match m with
    | .plan p => .pure p
    | .data _ => .raise .notAList

/-- The members of data; data without members is no list. -/
def members (j : Json) : Work (List Json) :=
  match j.members? with
  | some js => .pure js
  | none => .raise .notAList

/-- The names among members. Other scalars name nothing, and collections cannot be looked up. -/
def names (js : List Json) : Work (List String) :=
  if js.any Json.isCollection then .raise .notAList else .pure (js.filterMap Json.string?)

/-- The distinct names among members in ascending order; the members must be comparable. -/
def sortedNames (js : List Json) : Work (List String) :=
  match (Json.distinct? js).map Json.ascending with
  | some (.ok _) => .bind (names js) fun ns => .pure (sortNames (unique ns))
  | _ => .raise .notAList

/-- Remembers a list of names. Whatever else stands in the store under the key is answered by its
members. -/
def cachedNames [Room] (key : String) (ns : List String) : Work (List Json) :=
  .bind (cachedData key (.pure (Json.ofStrings ns))) members

end Work
end FieldPlan
