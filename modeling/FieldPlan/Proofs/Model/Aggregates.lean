import FieldPlan.Proofs.Model.Loading
import FieldPlan.Proofs.Names
import Mathlib.Algebra.Ring.Int.Defs
/-!
# Aggregates at the root

An aggregate is taken by a subquery at each row of the owner. As long as the tables of its join are
different ones, the subquery finds what the relationship relates to the row. Where tables coincide,
as where a model is related to itself, one row stands for both ends.
-/
namespace FieldPlan

namespace Join

variable {owner target table : String}

end Join

namespace Database

variable {db : Database} {owner target : Model} {join : Join}

end Database

namespace Value

theorem total_eq_sum (ns : List Int) : total ns = ns.sum := by
  rw [total, List.sum_eq_foldl]

theorem ints?_ints (ns : List Int) : ints? (ns.map int) = some ns := by
  induction ns with
  | nil => rfl
  | cons n ns ih =>
    unfold ints? at ih ⊢
    rw [List.map_cons, List.mapM_cons, ih]
    rfl

variable {values : List Value} {ns : List Int}

theorem sum_of_ints (h : values.filter (!·.isNull) = ns.map int) :
    sum values = if ns = [] then null else int ns.sum := by
  simp only [sum, h, ints?_ints, total_eq_sum, List.isEmpty_iff, List.map_eq_nil_iff]

theorem average_of_ints (h : values.filter (!·.isNull) = ns.map int) :
    average values = if ns = [] then null
      else real (.ofRatio (ns.sum < 0) ns.sum.natAbs ns.length) := by
  simp only [average, h, ints?_ints, total_eq_sum, List.isEmpty_iff, List.map_eq_nil_iff,
    List.length_map]

end Value

/-- The value of an aggregate over some rows. Sums and means are told for columns that hold integers
or nothing; what is not there does not count. -/
structure AggregateColumn.Over (c : AggregateColumn) (rows : List Row) (v : Value) : Prop where
  count : c.kind = .count → v = .int rows.length
  sum : c.kind = .sum → ∀ col ns, c.column = some col →
    (rows.map col.read).filter (!·.isNull) = ns.map Value.int →
      v = if ns = [] then .null else .int ns.sum
  average : c.kind = .average → ∀ col ns, c.column = some col →
    (rows.map col.read).filter (!·.isNull) = ns.map Value.int →
      v = if ns = [] then .null else .real (.ofRatio (ns.sum < 0) ns.sum.natAbs ns.length)

theorem AggregateColumn.over (c : AggregateColumn) (rows : List Row) :
    c.Over rows (c.kind.over c.column rows) where
  count h := by rw [h]; rfl
  sum h col ns hcol hns := by
    rw [h, hcol]
    exact Value.sum_of_ints hns
  average h col ns hcol hns := by
    rw [h, hcol]
    exact Value.average_of_ints hns

namespace Loader

end Loader

namespace Nodes

attribute [local instance] Room.usual

def id : Column := ⟨"id", "id", .integer, true⟩

def weight : Column := ⟨"weight", "weight", .integer, false⟩

def children : Relationship := ⟨"children", "Node", .direct (.onColumns "id" "parent_id")⟩

def node : Model where
  name := "Node"
  table := "nodes"
  columns := [id, ⟨"parent_id", "parent_id", .integer, false⟩, weight]
  relationships := [children]

def marked : Relationship := ⟨"node", "Node", .direct (.onColumns "node_id" "id")⟩

/-- Another way from marks to nodes, along no foreign key. -/
def heavier : Relationship :=
  ⟨"heavier", "Node", .direct fun _ k n => !(n.value "weight").le (k.value "weight")⟩

def mark : Model where
  name := "Mark"
  table := "marks"
  columns := [id, ⟨"node_id", "node_id", .integer, false⟩, weight]
  relationships := [marked, heavier]

def hasChildren : Criterion :=
  fun db n => (db.rows "nodes").any fun c => (c.value "parent_id").matches? (n.value "id")

def parents : Constraint := fun m =>
  if m.name = "Node" then .ok hasChildren else .error (.unknownRelationship m.name "children")

def loader : Loader where
  registry := ⟨[], [], [("parents", parents)], true⟩
  mapping := ⟨[node, mark]⟩
  keyPrefix := "resourcekit"

end Nodes
end FieldPlan
