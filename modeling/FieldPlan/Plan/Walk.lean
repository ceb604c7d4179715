import FieldPlan.Metadata
import FieldPlan.Query.Basic
import FieldPlan.Settings
/-!
# The walk

From the fields of a resource to the loads that they need. Each field contributes loads and
aggregates of its own; a relation that embeds a resource leads on to the fields of that resource,
unless it stands among the ancestors already. Since ancestors are registered types and each step
down adds one, the walk ends however the resources refer to each other.
-/
namespace FieldPlan

inductive Contribution where
  | load (path : String) (l : RelationLoad)
  | aggregate (key : String) (a : AggregateLoad)
  deriving DecidableEq, Repr

def LoadPlan.add (maxDepth : Nat) (p : LoadPlan) : Contribution → Except PlanError LoadPlan
  | .load path l => p.addLoad maxDepth path l
  | .aggregate key a => .ok (p.addAggregate key a)

def LoadPlan.addAll (maxDepth : Nat) (p : LoadPlan) (cs : List Contribution) :
    Except PlanError LoadPlan :=
  cs.foldlM (LoadPlan.add maxDepth) p

namespace Catalog

/-- The column behind an accessor: what the target's field of that name reads, else the accessor
itself. -/
def accessorColumn (c : Catalog) (r : RelationField) (accessor : String) : String :=
  let source := r.target.bind fun t => (c.find? t).bind fun s => (s.get? accessor).bind Field.source?
  (source.filter (· != "")).getD accessor

def defaultColumns (c : Catalog) (type : String) : List String :=
  match c.find? type with
  | some s => unique (s.defaults.filterMap fun n => (s.get? n).bind Field.column?)
  | none => []

/-- The load of a relation met below these ancestors. -/
def relationLoad (c : Catalog) (ancestors : List String) (r : RelationField) : RelationLoad :=
  let base : RelationLoad := { resource := r.target, constraint := r.constraint, many := r.many }
  match r.accessor, r.target with
  | some accessor, _ => { base with columns := some [c.accessorColumn r accessor] }
  | none, none => base
  | none, some t =>
    if t ∈ ancestors then { base with columns := some (c.defaultColumns t), cyclic := true }
    else base

/-- What a field itself adds at a path. -/
def contributions (c : Catalog) (ancestors : List String) (path : String) (f : Field) :
    List Contribution :=
  (f.extras.map fun extra => .load (joinPath path extra) {}) ++
    match f.body with
    | .relation r => [.load (joinPath path r.source) (c.relationLoad ancestors r)]
    | .aggregate a => [.aggregate (joinPath path f.name) (a.load path)]
    | _ => []

/-- The resource that a field leads on to. -/
def child? (c : Catalog) (ancestors : List String) (f : Field) :
    Option { s : ResourceSchema // s.type ∈ c.types ∧ s.type ∉ ancestors } :=
  match f.embedded? with
  | none => none
  | some t =>
    match h : c.find? t with
    | none => none
    | some s =>
      if ha : s.type ∈ ancestors then none
      else some ⟨s, List.mem_map_of_mem (List.mem_of_find?_eq_some h), ha⟩

/-- The registered types that are not among the ancestors. -/
def unvisited (c : Catalog) (ancestors : List String) : List String :=
  c.types.filter (· ∉ ancestors)

theorem length_unvisited_cons {c : Catalog} {ancestors : List String} {t : String}
    (ht : t ∈ c.types) (ha : t ∉ ancestors) :
    (c.unvisited (t :: ancestors)).length < (c.unvisited ancestors).length := by
  have h : c.unvisited (t :: ancestors) = (c.unvisited ancestors).filter (· ≠ t) := by
    unfold unvisited
    rw [List.filter_filter]
    congr 1
    funext u
    simp [not_or]
  rw [h]
  refine List.length_filter_lt_length_iff_exists.mpr ⟨t, ?_, by simp⟩
  simp [unvisited, ht, ha]

end Catalog

/-- What the walk goes by. -/
structure Walk where
  catalog : Catalog
  maxDepth : Nat
  /-- the fields requested of embedded types -/
  nested : Selection
  /-- the fields of an embedded type when none are requested -/
  defaults : String → Work (List String)

namespace Walk

/-- The fields to plan below a relation: the pinned ones, else the requested ones, else the
defaults of the child. -/
def childFields (w : Walk) (f : Field) (type : String) : Work (List String) :=
  match f.relation?.bind (·.pinned) with
  | some names => .pure names
  | none =>
    match w.nested.get? type with
    | some names => .pure names
    | none => w.defaults type

/-- Adds to a plan what the named fields of a resource need at a path below these ancestors. -/
def visit (w : Walk) (ancestors : List String) (s : ResourceSchema) (path : String) :
    List String → LoadPlan → Work LoadPlan
  | [], p => .pure p
  | name :: rest, p =>
    match s.get? name with
    | none => w.visit ancestors s path rest p
    | some f =>
      .bind (Work.ofPlan (p.addAll w.maxDepth (w.catalog.contributions ancestors path f))) fun p =>
        match w.catalog.child? ancestors f with
        | none => w.visit ancestors s path rest p
        | some child =>
          .bind (w.childFields f child.1.type) fun names =>
            .bind (w.visit (child.1.type :: ancestors) child.1
                (joinPath path (f.source?.getD "")) names p) fun p =>
              w.visit ancestors s path rest p
termination_by names => ((w.catalog.unvisited ancestors).length, names.length)
decreasing_by
  · exact Prod.Lex.right _ (by simp)
  · exact Prod.Lex.right _ (by simp)
  · exact Prod.Lex.left _ _ (Catalog.length_unvisited_cons child.2.1 child.2.2)
  · exact Prod.Lex.right _ (by simp)

/-- The plan of a resource for its named fields. -/
def build (w : Walk) (s : ResourceSchema) (names : List String) : Work LoadPlan :=
  .bind (w.visit [s.type] s "" names .empty) fun p => .pure p.sorted

end Walk
end FieldPlan
