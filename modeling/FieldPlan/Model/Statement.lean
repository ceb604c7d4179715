import FieldPlan.Field
import FieldPlan.Model.Database
import FieldPlan.Query.Basic
import FieldPlan.Signature
/-!
# Statements

What to read from a database: the rows of a model in an order and within a page, the related rows
along some paths, and aggregates at each row. Rows are ordered by their clauses and then by their
keys. A related record has those columns loaded that the root or some path reaching it asks for.
-/
namespace FieldPlan

structure PathStep where
  name : String
  relationship : Relationship
  owner : Model
  target : Model
  condition : Option Criterion

/-- A path and the columns to load at its end; without any, all. -/
structure LoadOption where
  path : String
  steps : List PathStep
  columns : List String

structure AggregateColumn where
  label : String
  kind : AggregateKind
  relationship : Relationship
  target : Model
  column : Option Column
  condition : Option Criterion

structure Statement where
  model : Model
  options : List LoadOption
  aggregates : List AggregateColumn
  order : List (Column × Direction)
  offset : Nat
  limit : Option Nat

def Statement.ofModel (m : Model) : Statement := ⟨m, [], [], [], 0, none⟩

/-- A statement for the rows of a page, in an order that comes after its own. A page that skips no
rows leaves the offset as it is; a negative limit is none. -/
def Statement.within (st : Statement) (order : List (Column × Direction)) (page : Pagination) :
    Statement :=
  { st with
    order := st.order ++ order
    offset := if page.skipped = 0 then st.offset else page.skipped.toNat
    limit := if page.limit < 0 then none else some page.limit.toNat }

/-- A record reached, and the columns asked for there; none stands for all. -/
structure Visit where
  model : String
  key : Value
  columns : Option (List String)

/-- A related record and its columns that are not loaded. -/
structure LoadedRecord where
  key : Value
  unloaded : List String

structure Reading where
  /-- the keys and the aggregates of the rows -/
  rows : List (Value × List (String × Value))
  /-- per path and row, the distinct records at its end -/
  paths : List (String × List (Value × List LoadedRecord))

/-- An aggregate over some rows: their number, or the sum or mean of a column. -/
def AggregateKind.over (kind : AggregateKind) (column : Option Column) (rows : List Row) : Value :=
  let values := rows.map fun t => (column.map fun c => c.read t).getD .null
  match kind with
  | .count => .int rows.length
  | .sum => Value.sum values
  | .average => Value.average values

namespace Database

/-- The order of two rows under some clauses; rows that agree in them are ordered by key. -/
def rowLe (m : Model) : List (Column × Direction) → Row → Row → Bool
  | [], a, b => (m.keyOf a).le (m.keyOf b)
  | (c, d) :: rest, a, b =>
    let (x, y) := match d with
      | .ascending => (c.read a, c.read b)
      | .descending => (c.read b, c.read a)
    if x.le y && y.le x then rowLe m rest a b else x.le y

def ordered (db : Database) (m : Model) (order : List (Column × Direction)) : List Row :=
  (db.rows m.table).mergeSort (rowLe m order)

def page (db : Database) (st : Statement) : List Row :=
  let rest := (db.ordered st.model st.order).drop st.offset
  match st.limit with
  | some n => rest.take n
  | none => rest

def aggregate (db : Database) (m : Model) (a : AggregateColumn) (r : Row) : Value :=
  a.kind.over a.column (db.kept a.condition (db.aggregated a.relationship.join m a.target r))

/-- The rows at the end of one segment; each row is met once. -/
def follow (db : Database) (step : PathStep) (rows : List Row) : List Row :=
  let found := rows.flatMap (db.related step.relationship.join step.target)
  (db.kept step.condition found).eraseDupsBy fun a b => step.target.keyOf a == step.target.keyOf b

/-- The rows at the end of each segment of a path. -/
def trail (db : Database) : List PathStep → List Row → List (PathStep × List Row)
  | [], _ => []
  | step :: rest, rows =>
    let next := db.follow step rows
    (step, next) :: db.trail rest next

/-- The columns asked for at the end of some segments: those of the path's own option, else all. -/
def columnsAt (st : Statement) (path : String) : Option (List String) :=
  match st.options.find? (·.path == path) with
  | some o => if o.columns.isEmpty then none else some o.columns
  | none => none

/-- The records that an option reaches from a row, segment by segment. -/
def visits (db : Database) (st : Statement) (o : LoadOption) (r : Row) : List Visit :=
  (db.trail o.steps [r]).zipIdx.flatMap fun ((step, rows), i) =>
    let path := ".".intercalate ((o.steps.take (i + 1)).map (·.name))
    rows.map fun t => ⟨step.target.name, step.target.keyOf t, columnsAt st path⟩

/-- All records that a statement reaches; the rows themselves are loaded in full. -/
def allVisits (db : Database) (st : Statement) : List Visit :=
  (db.page st).flatMap fun r =>
    ⟨st.model.name, st.model.keyOf r, none⟩ :: st.options.flatMap fun o => db.visits st o r

/-- The columns of a record that no visit asks for; its key is always loaded. -/
def unloaded (visits : List Visit) (m : Model) (key : Value) : List String :=
  let here := visits.filter fun v => v.model == m.name && v.key == key
  sortNames ((m.columns.filter fun c =>
    !c.isKey && here.all fun v => v.columns.any fun cs => !cs.contains c.name).map (·.name))

/-- The records at the end of a path from one row, by key. -/
def reached (db : Database) (visits : List Visit) (o : LoadOption) (r : Row) :
    List LoadedRecord :=
  match (db.trail o.steps [r]).getLast? with
  | none => []
  | some (step, rows) =>
    let keys := (rows.map step.target.keyOf).mergeSort Value.le
    keys.map fun k => ⟨k, unloaded visits step.target k⟩

def read (db : Database) (st : Statement) : Reading :=
  let rows := db.page st
  let visits := db.allVisits st
  { rows := rows.map fun r =>
      (st.model.keyOf r, st.aggregates.map fun a => (a.label, db.aggregate st.model a r))
    paths := st.options.map fun o =>
      (o.path, rows.map fun r => (st.model.keyOf r, db.reached visits o r)) }

/-- The most rows that a database counts. -/
def maxCount : Nat := Nat.pow 2 63 - 1

/-- What a database answers to a statement: nothing where it cannot count the rows to skip or to
read. -/
def answer? (db : Database) (st : Statement) : Option Reading :=
  if maxCount < st.offset ∨ st.limit.any (maxCount < ·) then none else some (db.read st)

end Database
end FieldPlan
