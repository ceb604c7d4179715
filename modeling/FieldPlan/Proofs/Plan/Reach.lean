import FieldPlan.Plan.Search
import FieldPlan.Proofs.Catalog
import FieldPlan.Proofs.Names
import FieldPlan.Proofs.Plan.Contributions
/-!
# What a walk can reach

The reachable types are those that relations which embed a resource lead to from the root. A walk
meets no other types below its root, so that its contributions depend on no fields but theirs.
-/
namespace FieldPlan

namespace Catalog

variable {c : Catalog} {root t u : String}

/-- A relation of the first type embeds the second: it has that target and no accessor. -/
def Embeds (c : Catalog) (u v : String) : Prop :=
  ∃ s f rel, c.find? u = some s ∧ f ∈ s.fields ∧ f.body = .relation rel ∧
    rel.accessor = none ∧ rel.target = some v

theorem mem_targets : t ∈ c.targets u ↔ c.Embeds u t := by
  unfold targets Embeds
  cases c.find? u with
  | none => simp
  | some s =>
    simp only [List.mem_filterMap, Field.embedded?_eq_some, Option.some.injEq]
    constructor
    · rintro ⟨f, hf, rel, hrel⟩
      exact ⟨s, f, rel, rfl, hf, hrel⟩
    · rintro ⟨_, f, rel, rfl, hf, hrel⟩
      exact ⟨f, hf, rel, hrel⟩

theorem Embeds.mem_types (h : c.Embeds u t) : t ∈ c.types := by
  obtain ⟨s, f, rel, hu, hf, hbody, -, htarget⟩ := h
  exact target_mem_types hu hf hbody htarget

/-- Relations that embed resources lead from the root to another type. -/
def Reaches (c : Catalog) (root t : String) : Prop :=
  t ≠ root ∧ Relation.TransGen (fun u v => v ∈ c.targets u) root t

theorem reaches_iff : c.Reaches root t ↔ t ≠ root ∧ Relation.TransGen c.Embeds root t := by
  have hstep : (fun u v => v ∈ c.targets u) = c.Embeds :=
    funext fun u => funext fun v => propext mem_targets
  rw [Reaches, hstep]

theorem Embeds.reaches (ht : c.Embeds u t) (hu : u = root ∨ c.Reaches root u) (hne : t ≠ root) :
    c.Reaches root t := by
  rw [reaches_iff]
  rcases hu with rfl | hu
  · exact ⟨hne, .single ht⟩
  · exact ⟨hne, .tail (reaches_iff.mp hu).2 ht⟩

theorem Reaches.mem_types (h : c.Reaches root t) : t ∈ c.types := by
  cases (reaches_iff.mp h).2 with
  | single hstep => exact hstep.mem_types
  | tail _ hstep => exact hstep.mem_types

/-- Types that are closed under the relations, but for those that lead back to the root, are all
that the root reaches. -/
theorem Reaches.mem_of_closed (h : c.Reaches root t) {seen : List String}
    (hclosed : ∀ u, u = root ∨ u ∈ seen → ∀ v, c.Embeds u v → v = root ∨ v ∈ seen) : t ∈ seen := by
  obtain ⟨hne, hpath⟩ := reaches_iff.mp h
  refine Or.resolve_left ?_ hne
  clear h hne
  induction hpath with
  | single hstep => exact hclosed root (.inl rfl) _ hstep
  | tail _ hstep ih => exact hclosed _ ih _ hstep

end Catalog

/-- A search for what a root reaches. Whatever was found is reached, and of the types that were
found all but the pending ones have been followed. -/
structure Search.IsBelow (c : Catalog) (root : String) (w : Search) : Prop where
  distinct : w.seen.Nodup
  reached : ∀ t ∈ w.seen, c.Reaches root t
  pending : ∀ t ∈ w.pending, t = root ∨ t ∈ w.seen
  followed : ∀ u, u = root ∨ u ∈ w.seen → u ∉ w.pending →
    ∀ t, c.Embeds u t → t = root ∨ t ∈ w.seen

namespace Search

variable {c : Catalog} {root t type : String} {seen pending new : List String}

theorem IsBelow.start (c : Catalog) (root : String) : (Search.start root).IsBelow c root where
  distinct := List.nodup_nil
  reached := fun t ht => nomatch ht
  pending := fun t ht => .inl (List.mem_singleton.mp ht)
  followed := by
    rintro u (rfl | hu) hpending
    · exact absurd (List.mem_singleton_self u) hpending
    · cases hu

theorem IsBelow.follow (h : IsBelow c root ⟨seen, type :: pending⟩) (hdistinct : new.Nodup)
    (hnew : ∀ t, t ∈ new ↔ c.Embeds type t ∧ t ≠ root ∧ t ∉ seen) :
    IsBelow c root ⟨new ++ seen, new ++ pending⟩ where
  distinct := List.nodup_append.mpr
    ⟨hdistinct, h.distinct, fun t ht u hu heq => ((hnew t).mp ht).2.2 (heq ▸ hu)⟩
  reached := by
    intro t ht
    rcases List.mem_append.mp ht with ht | ht
    · obtain ⟨hembeds, hne, -⟩ := (hnew t).mp ht
      exact hembeds.reaches ((h.pending type List.mem_cons_self).imp_right (h.reached type)) hne
    · exact h.reached t ht
  pending := by
    intro t ht
    rcases List.mem_append.mp ht with ht | ht
    · exact .inr (List.mem_append_left _ ht)
    · exact (h.pending t (List.mem_cons_of_mem _ ht)).imp_right (List.mem_append_right _)
  followed := by
    intro u hu hpending t ht
    simp only [List.mem_append, not_or] at hpending hu ⊢
    by_cases htype : u = type
    · subst htype
      by_cases hroot : t = root
      · exact .inl hroot
      · by_cases hseen : t ∈ seen
        · exact .inr (.inr hseen)
        · exact .inr (.inl ((hnew t).mpr ⟨ht, hroot, hseen⟩))
    · have hold : u = root ∨ u ∈ seen := hu.imp_right fun hu => hu.resolve_left hpending.1
      have holds := h.followed u hold (by simp [htype, hpending.2]) t ht
      exact holds.imp_right .inr

theorem IsBelow.mem_seen_iff (h : IsBelow c root ⟨seen, []⟩) : t ∈ seen ↔ c.Reaches root t :=
  ⟨h.reached t, fun ht => ht.mem_of_closed fun u hu => h.followed u hu List.not_mem_nil⟩

end Search

namespace Catalog

variable {c : Catalog} {root t : String}

/-- The worklist finds the types that relations lead to, and no others. -/
theorem mem_reachable_iff : t ∈ c.reachable root ↔ c.Reaches root t := by
  have hreach (seen pending : List String) (h : Search.IsBelow c root ⟨seen, pending⟩) :
      Search.IsBelow c root ⟨c.reach root seen pending, []⟩ := by
    have hnew (type t : String) (seen : List String) :
        t ∈ c.newTargets root seen type ↔ c.Embeds type t ∧ t ≠ root ∧ t ∉ seen := by
      rw [mem_newTargets, mem_targets]
      exact ⟨fun h => ⟨h.1, h.2.2⟩, fun h => ⟨h.1, h.1.mem_types, h.2⟩⟩
    fun_induction Catalog.reach c root seen pending with
    | case1 seen => exact h
    | case2 seen type pending hnone ih =>
      have hnew := fun t => hnew type t seen
      rw [hnone] at hnew
      exact ih (h.follow List.nodup_nil hnew)
    | case3 seen type pending new more hsome ih =>
      have hdistinct : (new :: more).Nodup := hsome ▸ nodup_unique _
      exact ih (h.follow hdistinct fun t => hsome ▸ hnew type t seen)
  exact (hreach [] [root] (.start c root)).mem_seen_iff

theorem mem_types_of_mem_reachable (h : t ∈ c.reachable root) : t ∈ c.types :=
  (mem_reachable_iff.mp h).mem_types

theorem root_notMem_reachable : root ∉ c.reachable root :=
  fun h => (mem_reachable_iff.mp h).1 rfl

theorem Reaches.of_child {ancestors : List String} {s : ResourceSchema}
    {name : String} {f : Field}
    {child : { s : ResourceSchema // s.type ∈ c.types ∧ s.type ∉ ancestors }}
    (hs : c.find? s.type = some s) (hplace : s.type = root ∨ c.Reaches root s.type)
    (hroot : root ∈ ancestors) (hget : s.get? name = some f)
    (hchild : c.child? ancestors f = some child) : c.Reaches root child.1.type := by
  obtain ⟨rel, hbody, haccessor, htarget, -⟩ := child?_eq_some.mp hchild
  have hembeds : c.Embeds s.type child.1.type :=
    ⟨s, f, rel, hs, List.mem_of_find?_eq_some hget, hbody, haccessor, htarget⟩
  exact hembeds.reaches hplace fun heq => child.2.2 (heq ▸ hroot)

/-- Contributions below a root depend on the fields of reachable types, and on the declared ones
among the names they start from. -/
theorem collect_subset {children children' : Field → String → List String}
    (hchildren : ∀ f t, t ∈ c.reachable root → ∀ n ∈ children f t, n ∈ children' f t)
    {ancestors : List String} {s : ResourceSchema} {path : String} {names names' : List String}
    (hs : c.find? s.type = some s) (hplace : s.type = root ∨ s.type ∈ c.reachable root)
    (hroot : root ∈ ancestors) (hnames : ∀ n ∈ names, s.declares n → n ∈ names')
    {a : Contribution} (h : a ∈ c.collect children ancestors s path names) :
    a ∈ c.collect children' ancestors s path names' := by
  induction h using collect_induction generalizing names' with
  | @made ancestors s path names name f hname hget hmade =>
    have hdeclared : s.declares name := by rw [ResourceSchema.declares, hget]; rfl
    exact mem_collect.mpr ⟨name, hnames name hname hdeclared, f, hget, .inl hmade⟩
  | @within ancestors s path names name f child hname hget hchild _ ih =>
    obtain ⟨-, -, -, -, hfind⟩ := child?_eq_some.mp hchild
    have hdeclared : s.declares name := by rw [ResourceSchema.declares, hget]; rfl
    have hreach : child.1.type ∈ c.reachable root :=
      mem_reachable_iff.mpr
        (.of_child hs (hplace.imp_right mem_reachable_iff.mp) hroot hget hchild)
    have hbelow := ih hfind (.inr hreach) (List.mem_cons_of_mem _ hroot)
      (fun n hn _ => hchildren f child.1.type hreach n hn)
    exact mem_collect.mpr
      ⟨name, hnames name hname hdeclared, f, hget, .inr ⟨child, hchild, hbelow⟩⟩

theorem resource_mem_types {children : Field → String → List String} {ancestors : List String}
    {s : ResourceSchema} {path : String} {names : List String} (hs : c.find? s.type = some s)
    {p : String} {l : RelationLoad} (h : .load p l ∈ c.collect children ancestors s path names)
    (hl : l.resource = some t) : t ∈ c.types := by
  induction h using collect_induction with
  | @made ancestors s path names name f hname hget hmade =>
    rcases load_mem_contributions.mp hmade with ⟨extra, -, -, rfl⟩ | ⟨rel, hbody, -, rfl⟩
    · cases hl
    · have hresource : (c.relationLoad ancestors rel).resource = rel.target := by
        unfold relationLoad
        split
        · rfl
        · rfl
        · split <;> rfl
      rw [hresource] at hl
      exact target_mem_types hs (List.mem_of_find?_eq_some hget) hbody hl
  | within hname hget hchild _ ih =>
    obtain ⟨rel, -, -, -, hfind⟩ := child?_eq_some.mp hchild
    exact ih hfind

end Catalog
end FieldPlan
