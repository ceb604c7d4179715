import FieldPlan.Model.Basic
import FieldPlan.Signature
/-!
# Related rows

Which rows a relationship relates, and which rows a subquery at a row of the owner finds. The
subquery names each table once: where the conditions of a join name the owner's table, that may be
the table of the enclosing query or one that the subquery reads anew.
-/
namespace FieldPlan

/-- The rows chosen of some tables; of a table chosen twice the last one counts. -/
abbrev Choice := Entries Row

def Choice.row (c : Choice) (table : String) : Row := (Entries.get? c table).getD []

namespace Join

/-- The tables that the conditions name. -/
def tables (owner target : String) : Join → List String
  | direct _ => [owner, target]
  | through table .. => [owner, table, target]

/-- The conditions, on the row that is chosen of each table. -/
def holds (db : Database) (owner target : String) (c : Choice) : Join → Bool
  | direct primary => primary db (c.row owner) (c.row target)
  | through table primary secondary =>
    primary db (c.row owner) (c.row table) && secondary db (c.row table) (c.row target)

/-- The tables that a subquery at the rows of an owner reads. A table of the enclosing query is not
read again, provided that another one is left. -/
def read (join : Join) (owner target : String) : List String :=
  let named := unique (join.tables owner target)
  let left := named.filter (· ≠ owner)
  if left.isEmpty then named else left

end Join

namespace Database

/-- The rows that a condition holds of, if there is one. -/
def kept (db : Database) (condition : Option Criterion) (rows : List Row) : List Row :=
  rows.filter fun r => condition.all fun holds => holds db r

/-- The rows that a join relates to a row of the owner, once for each row of an association. -/
def related (db : Database) (join : Join) (target : Model) (r : Row) : List Row :=
  match join with
  | .direct primary => (db.rows target.table).filter fun t => primary db r t
  | .through table primary secondary =>
    ((db.rows table).filter fun a => primary db r a).flatMap fun a =>
      (db.rows target.table).filter fun t => secondary db a t

/-- The ways to choose a row of each of some tables, beside the rows chosen before. -/
def choices (db : Database) : List String → Choice → List Choice
  | [], chosen => [chosen]
  | table :: rest, chosen =>
    (db.rows table).flatMap fun r => db.choices rest ((table, r) :: chosen)

/-- The rows of the target that a subquery at a row of the owner finds. Which tables of the join are
read anew and which are the owner's is up to `Join.read`. -/
def aggregated (db : Database) (join : Join) (owner target : Model) (r : Row) : List Row :=
  let choices := db.choices (join.read owner.table target.table) [(owner.table, r)]
  (choices.filter fun c => join.holds db owner.table target.table c).map (Choice.row · target.table)

end Database
end FieldPlan
