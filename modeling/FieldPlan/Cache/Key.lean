import FieldPlan.Json.Basic
/-!
# Cache keys

Everything cached lives under one of a few templates. A full key is the namespace, the category of
the template and its arguments, joined by colons; without a namespace it starts with the category.
-/
namespace FieldPlan.Cache

/-- What a key is for. -/
inductive Template where
  /-- the kinds of the columns of a model -/
  | columnKinds
  /-- the column names of a model -/
  | columns
  /-- whether a name is a relationship of a model -/
  | relationship
  /-- the load plan of a resource for a signature -/
  | plan
  /-- the model that a relationship leads to -/
  | relatedModel
  /-- the resolved fields of a resource for a signature -/
  | resolvedFields
  deriving DecidableEq, Repr

namespace Template

def category : Template → String
  | columnKinds => "repository-model-casts"
  | columns => "model-schema-columns"
  | relationship => "model-relations"
  | plan => "model-eager-loads"
  | relatedModel => "model-relation-instances"
  | resolvedFields => "resolved-resources"

def arity : Template → Nat
  | columnKinds | columns | resolvedFields => 1
  | relationship | plan | relatedModel => 2

/-- The template as text, with a pair of braces for each argument. -/
def pattern (t : Template) : String :=
  ":".intercalate (t.category :: List.replicate t.arity "\x7b\x7d")

def all : List Template :=
  [columnKinds, columns, relationship, plan, relatedModel, resolvedFields]

def ofCategory? (category : String) : Option Template := all.find? (·.category == category)

end Template

inductive KeyError where
  | unknownCategory (category : String)
  | arity (template : Template) (given : Nat)
  /-- an argument holds an integer without a text -/
  | longInteger
  deriving DecidableEq, Repr

def KeyError.message : KeyError → String
  | unknownCategory category => s!"Unknown cache key template '{category}'"
  | arity t given => s!"Cache key '{t.pattern}' expects {t.arity} argument(s), got {given}"
  | longInteger => Json.longIntegerMessage

/-- A key without checking the number of arguments. -/
def Template.fill (space : String) (t : Template) (args : List String) : String :=
  let key := ":".intercalate (t.category :: args)
  if space = "" then key else space ++ ":" ++ key

def Template.key (space : String) (t : Template) (args : List String) : Except KeyError String :=
  if args.length = t.arity then .ok (t.fill space args) else .error (.arity t args.length)

/-- A key whose arguments are any values, each as it stands inside a longer text. -/
def Template.keyOf (space : String) (t : Template) (args : List Json) : Except KeyError String := do
  let key ← t.key space (args.map Json.plain)
  if Json.anyLongInt args then .error .longInteger else return key

def keyIn (space category : String) (args : List Json) : Except KeyError String :=
  match Template.ofCategory? category with
  | some t => t.keyOf space args
  | none => .error (.unknownCategory category)

end FieldPlan.Cache
