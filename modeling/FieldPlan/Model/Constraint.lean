import FieldPlan.Field
import FieldPlan.Model.Basic
/-!
# Constraints

A named constraint is any function from the model that it is put on to a condition on the rows of
that model. It may fail, for instance because the model lacks an attribute.
-/
namespace FieldPlan

/-- A plan or a query that the models behind the resources do not bear out. -/
inductive ModelError where
  | notRelation (segment model path : String)
  | notRelationship (name model : String)
  | unknownColumns (model : String) (columns : List String)
  | notNumeric (kind : AggregateKind) (model : String) (column : Option String)
  | notMapped (model source relation : String)
  | unknownRelationship (model name : String)
  | unknownAttribute (model name : String)
  deriving DecidableEq, Repr

def ModelError.message : ModelError → String
  | notRelation segment model path => s!"'{segment}' is not a relation of {model} (path '{path}')"
  | notRelationship name model => s!"'{name}' is not a relation of {model}"
  | unknownColumns model columns => s!"{model} has no column(s) {Text.quotedList columns}"
  | notNumeric kind model column =>
    let shown := column.getD "None"
    s!"Cannot {kind.name} non-numeric column {model}.{shown}"
  | notMapped model source relation => s!"Model '{model}' (via {source}.{relation}) is not mapped"
  | unknownRelationship model name => s!"{model} has no relationship '{name}'"
  | unknownAttribute model name => s!"{model} has no attribute '{name}'"

abbrev Constraint := Model → Except ModelError Criterion

end FieldPlan
