import FieldPlan.Entries
import FieldPlan.Model.Value
/-!
# Mapped models

What the library knows of the record types behind resources: columns with their types, and
relationships to other models, each with conditions of its own on the rows that it relates.
-/
namespace FieldPlan

inductive ColumnType where
  | integer
  | bigInteger
  | text
  | string
  | float
  | numeric
  | boolean
  | datetime
  | timestamp
  | date
  | time
  | interval
  | json
  | null
  | untyped
  deriving DecidableEq, Repr

def ColumnType.named : List (String × ColumnType) := [
  ("integer", integer), ("biginteger", bigInteger), ("text", text), ("string", string),
  ("float", float), ("numeric", numeric), ("boolean", boolean), ("datetime", datetime),
  ("timestamp", timestamp), ("date", date), ("time", time), ("interval", interval), ("json", json),
  ("null", null)]

/-- The type of a name; any other name stands for no type. -/
def ColumnType.ofName (name : String) : ColumnType := (named.lookup name).getD untyped

inductive ValueKind where
  | int
  | str
  | float
  | decimal
  | bool
  | datetime
  | date
  | time
  | timedelta
  | object
  deriving DecidableEq, Repr

def ValueKind.name : ValueKind → String
  | int => "int"
  | str => "str"
  | float => "float"
  | decimal => "Decimal"
  | bool => "bool"
  | datetime => "datetime"
  | date => "date"
  | time => "time"
  | timedelta => "timedelta"
  | object => "object"

def ColumnType.valueKind : ColumnType → ValueKind
  | integer | bigInteger => .int
  | text | string => .str
  | float => .float
  | numeric => .decimal
  | boolean => .bool
  | datetime | timestamp => .datetime
  | date => .date
  | time => .time
  | interval => .timedelta
  | json | null | untyped => .object

/-- Types whose columns are shown as timestamps when fields are discovered. -/
def ColumnType.isTemporal : ColumnType → Bool
  | datetime | timestamp | date | time => true
  | _ => false

/-- The values of a row by stored column. -/
abbrev Row := Entries Value

def Row.value (r : Row) (column : String) : Value := (Entries.get? r column).getD .null

/-- The rows of the tables. -/
structure Database where
  tables : Entries (List Row)

def Database.rows (db : Database) (table : String) : List Row := (db.tables.get? table).getD []

/-- A condition on a row; like one with a subquery it may look at all tables. -/
abbrev Criterion := Database → Row → Bool

/-- A condition on two rows. -/
abbrev Pairing := Database → Row → Row → Bool

/-- The rows agree in a column of each, as along a foreign key. -/
def Pairing.onColumns (column other : String) : Pairing :=
  fun _ r t => (r.value column).matches? (t.value other)

/-- How the rows of a target belong to a row of the owner. -/
inductive Join where
  /-- a condition on the owner's row and the target's -/
  | direct (primary : Pairing)
  /-- conditions on the owner's row and a row of an association table, and on that row and the
  target's -/
  | through (table : String) (primary secondary : Pairing)

structure Column where
  /-- the attribute of the model -/
  name : String
  /-- the column of the table -/
  stored : String
  type : ColumnType
  isKey : Bool
  deriving Repr

/-- A value as a column of this type keeps it: a column of floats keeps integers as floats. -/
def ColumnType.keep : ColumnType → Value → Value
  | .float, .int n => .real (.ofInt n)
  | _, v => v

def Column.read (c : Column) (r : Row) : Value := c.type.keep (r.value c.stored)

/-- A named relationship to another model. -/
structure Relationship where
  name : String
  target : String
  join : Join

structure Model where
  name : String
  table : String
  columns : List Column
  relationships : List Relationship

structure Mapping where
  models : List Model

namespace Model

def column? (m : Model) (name : String) : Option Column := m.columns.find? (·.name == name)

def relationship? (m : Model) (name : String) : Option Relationship :=
  m.relationships.find? (·.name == name)

def columnNames (m : Model) : List String := m.columns.map (·.name)

def valueKinds (m : Model) : List (String × String) :=
  m.columns.map fun c => (c.name, c.type.valueKind.name)

/-- The column that identifies records. -/
def key? (m : Model) : Option Column := m.columns.find? (·.isKey)

def keyOf (m : Model) (r : Row) : Value := (m.key?.map fun c => c.read r).getD .null

end Model

def Mapping.model? (mapping : Mapping) (name : String) : Option Model :=
  mapping.models.find? (·.name == name)

end FieldPlan
