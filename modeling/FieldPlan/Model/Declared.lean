import FieldPlan.Model.Constraint
/-!
# Declared models

Joins and constraints as they are usually declared: along the foreign key between two tables,
through an association table that refers to both, and by comparing one column with a value.
-/
namespace FieldPlan

/-- A column that refers to a column of another table. -/
structure ForeignKey where
  column : String
  table : String
  referred : String

structure DeclaredTable where
  name : String
  foreignKeys : List ForeignKey

/-- How a relationship joins, which goes through an association table if one is given. Between two
rows of one table the foreign key is read as the target's. -/
def Join.declared? (owner target : DeclaredTable) : Option DeclaredTable → Option Join
  | some link => do
    let i ← link.foreignKeys.findIdx? (·.table == owner.name)
    let near ← link.foreignKeys[i]?
    let far ← (link.foreignKeys.eraseIdx i).find? (·.table == target.name)
    return .through link.name (.onColumns near.referred near.column)
      (.onColumns far.column far.referred)
  | none =>
    match target.foreignKeys.find? (·.table == owner.name) with
    | some k => some (.direct (.onColumns k.referred k.column))
    | none => (owner.foreignKeys.find? (·.table == target.name)).map fun k =>
      .direct (.onColumns k.column k.referred)

inductive Comparison where
  | equal
  | notEqual
  | greater
  | less
  | isNull

/-- A comparison with nothing holds of no value, unless it asks whether a value is there. -/
def Comparison.holds (c : Comparison) (v w : Value) : Bool :=
  match c with
  | .isNull => v.isNull
  | .equal => if w.isNull then v.isNull else v.matches? w
  | .notEqual => if w.isNull then !v.isNull else !v.isNull && !v.matches? w
  | .greater => !v.isNull && !w.isNull && !v.le w
  | .less => !v.isNull && !w.isNull && !w.le v

/-- The constraint that compares a column with a value. -/
def Constraint.comparing (column : String) (c : Comparison) (w : Value) : Constraint := fun m =>
  match m.column? column with
  | some col => .ok fun _ r => c.holds (col.read r) w
  | none => .error (.unknownAttribute m.name column)

end FieldPlan
