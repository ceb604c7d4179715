import FieldPlan.Proofs.Catalog
import FieldPlan.Proofs.Model.Paths
import FieldPlan.Proofs.Names
import Mathlib.Data.List.Perm.Subperm
/-!
# How deep a walk nests

The ancestors of a walk are different registered types. So there are never more of them than
registered types, and following no more relations into each other than that already lists all
contributions of a walk. Paths keep the names of the relations on the way to them.
-/
namespace FieldPlan

namespace Text

theorem length_splitChars (sep : Char) (cs : List Char) :
    (splitChars sep cs).length = cs.count sep + 1 := by
  induction cs with
  | nil => rfl
  | cons c cs ih =>
    rw [splitChars]
    by_cases hc : c = sep
    · rw [if_pos hc, List.length_cons, ih, hc, List.count_cons_self]
    · rw [if_neg hc, List.count_cons_of_ne hc, ← ih]
      cases hs : splitChars sep cs with
      | nil => exact absurd hs (splitChars_ne_nil sep cs)
      | cons piece pieces => rfl

end Text

/-- A name that takes up one segment of a path. -/
def IsSegment (name : String) : Prop := name ≠ "" ∧ '.' ∉ name.toList

instance (name : String) : Decidable (IsSegment name) :=
  inferInstanceAs (Decidable (name ≠ "" ∧ '.' ∉ name.toList))

def pathOf (names : List String) : String := names.foldl joinPath ""

theorem segments_foldl_joinPath {names : List String} (h : ∀ n ∈ names, IsSegment n)
    (path : String) : segments (names.foldl joinPath path) = segments path ++ names := by
  induction names generalizing path with
  | nil => simp
  | cons n names ih =>
    obtain ⟨hne, hdot⟩ := h n List.mem_cons_self
    rw [List.foldl_cons, ih (fun m hm => h m (List.mem_cons_of_mem n hm)), segments_joinPath _ hne,
      Text.split_of_notMem hdot, List.append_assoc, List.singleton_append]

theorem segments_pathOf {names : List String} (h : ∀ n ∈ names, IsSegment n) :
    segments (pathOf names) = names :=
  segments_foldl_joinPath h ""

theorem pathDepth_pathOf {names : List String} (hne : names ≠ [])
    (h : ∀ n ∈ names, IsSegment n) : pathDepth (pathOf names) = names.length := by
  have hsegments := segments_pathOf h
  have hpath : pathOf names ≠ "" := by
    intro hempty
    rw [hempty] at hsegments
    exact hne hsegments.symm
  rw [segments, if_neg hpath, Text.split] at hsegments
  rw [pathDepth, ← Text.length_splitChars, ← List.length_map String.ofList, hsegments]

namespace Catalog

variable {c : Catalog} {children : Field → String → List String} {ancestors : List String}
  {s : ResourceSchema} {path : String}

def size (c : Catalog) : Nat := (unique c.types).length

theorem length_le_size {ts : List String} (hdistinct : ts.Nodup) (hts : ∀ t ∈ ts, t ∈ c.types) :
    ts.length ≤ c.size :=
  (hdistinct.subperm fun t ht => mem_unique.mpr (hts t ht)).length_le

theorem relationLoad_of_cyclic {rel : RelationField}
    (h : (c.relationLoad ancestors rel).cyclic = true) :
    (c.relationLoad ancestors rel).columns ≠ none ∧
      ∃ t ∈ ancestors, (c.relationLoad ancestors rel).resource = some t := by
  cases haccessor : rel.accessor with
  | some accessor => simp [relationLoad, haccessor] at h
  | none =>
    cases htarget : rel.target with
    | none => simp [relationLoad, haccessor, htarget] at h
    | some t =>
      by_cases habove : t ∈ ancestors
      · simp [relationLoad, haccessor, htarget, habove]
      · simp [relationLoad, haccessor, htarget, habove] at h

/-- What `collect` lists if at most this many levels are entered, the first one included. -/
def collectWithin (c : Catalog) (children : Field → String → List String) :
    Nat → List String → ResourceSchema → String → List String → Option (List Contribution)
  | 0, _, _, _, _ => none
  | levels + 1, ancestors, s, path, names =>
    (names.mapM fun name =>
      match s.get? name with
      | none => some []
      | some f =>
        match c.child? ancestors f with
        | none => some (c.contributions ancestors path f)
        | some child =>
          (c.collectWithin children levels (child.1.type :: ancestors) child.1
            (joinPath path (f.source?.getD "")) (children f child.1.type)).map
              (c.contributions ancestors path f ++ ·)).map List.flatten

private theorem mapM_some {α : Type} {f : String → Option α} {g : String → α}
    {names : List String} (h : ∀ n, f n = some (g n)) : names.mapM f = some (names.map g) := by
  induction names with
  | nil => rfl
  | cons n names ih => rw [List.mapM_cons, h, ih]; rfl

/-- As many levels as there are registered types left are enough: each level down adds one of them
to the ancestors. -/
theorem collectWithin_eq_some {levels : Nat} (hdistinct : ancestors.Nodup)
    (hancestors : ∀ t ∈ ancestors, t ∈ c.types)
    (hlevels : c.size < levels + ancestors.length) (names : List String) :
    c.collectWithin children levels ancestors s path names =
      some (c.collect children ancestors s path names) := by
  induction levels generalizing ancestors s path names with
  | zero =>
    have hbound := length_le_size hdistinct hancestors
    omega
  | succ levels ih =>
    rw [collectWithin, collect_eq_flatMap, List.flatMap_def]
    rw [mapM_some (g := fun name => c.collect children ancestors s path [name])]
    · rfl
    · intro name
      rw [collect]
      cases s.get? name with
      | none => simp [collect]
      | some f =>
        cases hchild : c.child? ancestors f with
        | none => simp [hchild, collect]
        | some child =>
          have hbelow := @ih (child.1.type :: ancestors) child.1 (joinPath path (f.source?.getD ""))
            (List.nodup_cons.mpr ⟨child.2.2, hdistinct⟩)
            (List.forall_mem_cons.mpr ⟨child.2.1, hancestors⟩)
            (by rw [List.length_cons]; omega) (children f child.1.type)
          simp only [hchild, hbelow, collect, Option.map_some, List.append_nil]

end Catalog
end FieldPlan
