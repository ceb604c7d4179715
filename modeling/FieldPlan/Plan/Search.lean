import FieldPlan.Plan.Reach
/-!
# The search for reachable types

How the types below a root are found one by one. The type that entered the worklist last is taken
off it and looked up; each type that its relations embed enters, unless it is the root or entered
before. The search ends when the worklist is empty, and `Catalog.reachable` lists what it finds.
-/
namespace FieldPlan

/-- The types that were found, and the worklist. In both the last one to enter stands first. -/
structure Search where
  seen : List String
  pending : List String
  deriving DecidableEq, Repr

namespace Search

def start (root : String) : Search := ⟨[], [root]⟩

/-- What a relation embeds enters: its target, if it has one and no accessor stands for it. -/
def follow (root : String) (w : Search) (rel : RelationField) : Search :=
  match rel.target, rel.accessor with
  | some t, none => if t ≠ root ∧ t ∉ w.seen then ⟨t :: w.seen, t :: w.pending⟩ else w
  | _, _ => w

/-- One type is taken off the worklist, and its relations are followed in turn. -/
def round (c : Catalog) (root : String) (w : Search) : Except ResourceError Search :=
  match w.pending with
  | [] => .ok w
  | type :: pending =>
    (c.schema type).map fun s =>
      (s.relations.filterMap Field.relation?).foldl (follow root) { w with pending }

/-- So many rounds, or fewer if the worklist is empty before. -/
def rounds (c : Catalog) (root : String) : Nat → Search → Except ResourceError Search
  | 0, w => .ok w
  | n + 1, w => (w.round c root).bind (rounds c root n)

end Search
end FieldPlan
