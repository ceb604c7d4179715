import FieldPlan.Plan.Walk
/-!
# Reachable types

The types that the walk can go on to below a root: those connected to it by relations that embed a
resource. They are found by a worklist; each type enters it once.
-/
namespace FieldPlan.Catalog

/-- The types that the relations of a type embed. -/
def targets (c : Catalog) (type : String) : List String :=
  match c.find? type with
  | some s => s.fields.filterMap Field.embedded?
  | none => []

/-- The types that a type adds to those seen. -/
def newTargets (c : Catalog) (root : String) (seen : List String) (type : String) : List String :=
  unique ((c.targets type).filter fun t => t ∈ c.types ∧ t ≠ root ∧ t ∉ seen)

theorem mem_newTargets {c : Catalog} {root : String} {seen : List String} {type t : String} :
    t ∈ c.newTargets root seen type ↔
      t ∈ c.targets type ∧ t ∈ c.types ∧ t ≠ root ∧ t ∉ seen := by
  simp [newTargets, unique]

/-- All types that can be reached from those seen and those pending. -/
def reach (c : Catalog) (root : String) (seen : List String) : List String → List String
  | [] => seen
  | type :: pending =>
    match _h : c.newTargets root seen type with
    | [] => c.reach root seen pending
    | t :: ts => c.reach root (t :: ts ++ seen) (t :: ts ++ pending)
termination_by pending => ((c.unvisited seen).length, pending.length)
decreasing_by
  · exact Prod.Lex.right _ (by simp)
  · apply Prod.Lex.left
    have hm := mem_newTargets.mp (_h ▸ List.mem_cons_self : t ∈ c.newTargets root seen type)
    refine Nat.lt_of_le_of_lt ?_ (length_unvisited_cons hm.2.1 hm.2.2.2)
    unfold unvisited
    rw [← List.countP_eq_length_filter, ← List.countP_eq_length_filter]
    refine List.countP_mono_left fun u _ hu => ?_
    simp only [decide_eq_true_eq, List.cons_append, List.mem_cons, List.mem_append,
      not_or] at hu ⊢
    exact ⟨hu.1, hu.2.2⟩

/-- The types that the walk can go on to below a root, which is not among them. -/
def reachable (c : Catalog) (root : String) : List String := c.reach root [] [root]

end FieldPlan.Catalog
