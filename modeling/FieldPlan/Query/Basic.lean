import FieldPlan.Entries
import FieldPlan.Json.Basic
/-!
# Queries

What one request asks for: fields, counts, sums and averages per scope, filters, order and page.
A scope is a resource type, or `primary` for what is said of the request's own resource.
-/
namespace FieldPlan

/-- The scope of what is given without a resource. -/
def primary : String := "*"

abbrev Selection := Entries (List String)

abbrev Aggregation := Entries Selection

inductive Direction where
  | ascending
  | descending
  deriving DecidableEq, Repr

def Direction.word : Direction → String
  | ascending => "asc"
  | descending => "desc"

def Direction.ofWord? (s : String) : Option Direction :=
  [ascending, descending].find? fun d => d.word == s

structure OrderClause where
  field : String
  direction : Direction
  deriving DecidableEq, Repr

/-- Pages are counted from one; a cursor is not looked into. -/
inductive Pagination where
  | offset (limit page : Int)
  | cursor (limit : Int) (cursor : String)
  deriving DecidableEq, Repr

def Pagination.limit : Pagination → Int
  | offset limit _ => limit
  | cursor limit _ => limit

/-- The rows before the page; a cursor skips none. -/
def Pagination.skipped : Pagination → Int
  | offset limit page => (page - 1) * limit
  | cursor _ _ => 0

structure Query where
  /-- the type that unscoped parameters apply to -/
  resource : Option String
  fields : Selection
  counts : Selection
  sums : Aggregation
  averages : Aggregation
  filters : Option Json
  order : List OrderClause
  pagination : Pagination

/-- What is stored for a type: the last entry under it, else the last unscoped one if the type is
the primary resource. -/
def atScope {α : Type} (resource : Option String) (entries : Entries α) (type : String) :
    Option α :=
  let last := Entries.ofList entries
  match last.get? type with
  | some a => some a
  | none => if resource = some type then last.get? primary else none

namespace Query

/-- The query with its unscoped parameters applied to a type. -/
def bind (q : Query) (type : String) : Query := { q with resource := some type }

def fieldsFor (q : Query) (type : String) : Option (List String) := atScope q.resource q.fields type

def countsFor (q : Query) (type : String) : Option (List String) := atScope q.resource q.counts type

/-- The columns to sum per relation; of a repeated relation the last entry counts. -/
def sumsFor (q : Query) (type : String) : Option Selection :=
  (atScope q.resource q.sums type).map Entries.ofList

def averagesFor (q : Query) (type : String) : Option Selection :=
  (atScope q.resource q.averages type).map Entries.ofList

/-- The requested fields per type; the unscoped ones stand last, under the primary resource, unless
fields are given for its type. -/
def scopedFields (q : Query) : Selection :=
  let last := Entries.ofList q.fields
  let typed := last.erase primary
  match q.resource.filter (· != ""), last.get? primary with
  | some type, some names =>
    if (typed.get? type).isSome then typed else typed ++ [(type, names)]
  | _, _ => typed

end Query
end FieldPlan
