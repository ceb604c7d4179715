import FieldPlan.Proofs.Model.Loading
/-!
# The order of rows

Clauses put the rows of a table in their lexicographic order. Of the clauses of a query those count
whose field is a column of the model.
-/
namespace FieldPlan

open Cache

variable {m : Model} {order rest : List (Column × Direction)} {clause : Column × Direction}
  {a b c : Row}

/-! ## Values -/

namespace Value

theorem le_total (x y : Value) : (x.le y || y.le x) = true := by
  cases x <;> cases y
  case text.text s t => simpa [le] using String.le_total s t
  all_goals simp [le, Int.le_total]

theorem le_trans {x y z : Value} (hxy : x.le y = true) (hyz : y.le z = true) :
    x.le z = true := by
  cases x <;> cases y <;> cases z
  case text.text.text s t u =>
    simp only [le, decide_eq_true_eq] at hxy hyz ⊢
    exact String.le_trans hxy hyz
  all_goals simp only [le, decide_eq_true_eq, Bool.false_eq_true] at hxy hyz ⊢
  all_goals exact Int.le_trans hxy hyz

end Value

/-! ## Rows -/

/-- A row may stand before another one, as far as one clause goes. -/
def precedes : Column × Direction → Row → Row → Bool
  | (c, .ascending), a, b => (c.read a).le (c.read b)
  | (c, .descending), a, b => (c.read b).le (c.read a)

theorem precedes_total (clause : Column × Direction) (a b : Row) :
    (precedes clause a b || precedes clause b a) = true := by
  obtain ⟨c, direction⟩ := clause
  cases direction <;> exact Value.le_total _ _

theorem precedes_trans (hab : precedes clause a b = true) (hbc : precedes clause b c = true) :
    precedes clause a c = true := by
  obtain ⟨col, direction⟩ := clause
  cases direction with
  | ascending => exact Value.le_trans hab hbc
  | descending => exact Value.le_trans hbc hab

/-- The first clause that tells two rows apart decides which of them stands first; without any, both
may. -/
inductive Lexicographic : List (Column × Direction) → Row → Row → Prop where
  | nil {a b : Row} : Lexicographic [] a b
  | before {clause : Column × Direction} {rest : List (Column × Direction)} {a b : Row}
      (hab : precedes clause a b = true) (hba : precedes clause b a = false) :
      Lexicographic (clause :: rest) a b
  | alike {clause : Column × Direction} {rest : List (Column × Direction)} {a b : Row}
      (hab : precedes clause a b = true) (hba : precedes clause b a = true)
      (hrest : Lexicographic rest a b) : Lexicographic (clause :: rest) a b

namespace Database

theorem rowLe_cons : rowLe m (clause :: rest) a b = true ↔
    precedes clause a b = true ∧ (precedes clause b a = true → rowLe m rest a b = true) := by
  have hunfold : rowLe m (clause :: rest) a b =
      if precedes clause a b && precedes clause b a then rowLe m rest a b
      else precedes clause a b := by
    obtain ⟨c, direction⟩ := clause
    cases direction <;> rfl
  rw [hunfold]
  cases precedes clause a b <;> cases precedes clause b a <;> simp

theorem rowLe_total (m : Model) (order : List (Column × Direction)) (a b : Row) :
    (rowLe m order a b || rowLe m order b a) = true := by
  rw [Bool.or_eq_true]
  induction order with
  | nil => exact Bool.or_eq_true_iff.mp (Value.le_total _ _)
  | cons clause rest ih =>
    have htotal := Bool.or_eq_true_iff.mp (precedes_total clause a b)
    rw [rowLe_cons, rowLe_cons]
    by_cases hab : precedes clause a b = true
    · by_cases hba : precedes clause b a = true
      · exact ih.imp (fun h => ⟨hab, fun _ => h⟩) fun h => ⟨hba, fun _ => h⟩
      · exact .inl ⟨hab, fun h => absurd h hba⟩
    · exact .inr ⟨htotal.resolve_left hab, fun h => absurd h hab⟩

theorem rowLe_trans (hab : rowLe m order a b = true) (hbc : rowLe m order b c = true) :
    rowLe m order a c = true := by
  induction order with
  | nil => exact Value.le_trans hab hbc
  | cons clause rest ih =>
    rw [rowLe_cons] at hab hbc ⊢
    refine ⟨precedes_trans hab.1 hbc.1, fun hca => ih (hab.2 ?_) (hbc.2 ?_)⟩
    · exact precedes_trans hbc.1 hca
    · exact precedes_trans hca hab.1

theorem lexicographic_of_rowLe (h : rowLe m order a b = true) : Lexicographic order a b := by
  induction order with
  | nil => exact .nil
  | cons clause rest ih =>
    obtain ⟨hab, hrest⟩ := rowLe_cons.mp h
    cases hba : precedes clause b a with
    | false => exact .before hab hba
    | true => exact .alike hab hba (ih (hrest hba))

theorem ordered_perm (db : Database) (m : Model) (order : List (Column × Direction)) :
    (db.ordered m order).Perm (db.rows m.table) :=
  List.mergeSort_perm _ _

theorem ordered_pairwise (db : Database) (m : Model) (order : List (Column × Direction)) :
    (db.ordered m order).Pairwise (Lexicographic order) := by
  have htrans (a b c : Row) (hab : rowLe m order a b = true) (hbc : rowLe m order b c = true) :=
    rowLe_trans hab hbc
  exact (List.pairwise_mergeSort htrans (rowLe_total m order) _).imp lexicographic_of_rowLe

end Database

/-! ## Clauses -/

/-- The columns that a model is ordered by: those that the field of a clause names, clause by
clause. -/
def Model.orderedBy (m : Model) (clauses : List OrderClause) : List (Column × Direction) :=
  clauses.filterMap fun clause => (m.column? clause.field).map fun c => (c, clause.direction)

namespace Loader

theorem eval_orderColumns (m : Model) (clauses : List OrderClause) :
    (orderColumns m m.columnNames clauses).eval = .ok (m.orderedBy clauses) := by
  induction clauses with
  | nil => rfl
  | cons clause rest ih =>
    rw [orderColumns, Model.orderedBy, List.filterMap_cons, ← Model.orderedBy]
    cases hcolumn : m.column? clause.field with
    | none =>
      have hunknown : m.columnNames.contains clause.field = false := by
        rw [← Bool.not_eq_true, List.contains_iff_mem, ← Model.isSome_column?_iff, hcolumn]
        exact Bool.false_ne_true
      rw [hunknown]
      exact ih
    | some c =>
      have hknown : m.columnNames.contains clause.field = true := by
        rw [List.contains_iff_mem, ← Model.isSome_column?_iff, hcolumn]
        rfl
      rw [if_pos hknown]
      exact Task.eval_bind_eq_ok.mpr ⟨_, ih, rfl⟩

end Loader
end FieldPlan
