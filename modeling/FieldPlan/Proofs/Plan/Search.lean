import FieldPlan.Proofs.Plan.Nesting
import FieldPlan.Proofs.Plan.Reach
/-!
# The search ends

Each round of a search takes one type off the worklist, and each type enters it once. So there are
no more rounds than registered types, and what is found in them is what the root reaches.
-/
namespace FieldPlan

namespace ResourceSchema

theorem mem_relations {s : ResourceSchema} {rel : RelationField} :
    rel ∈ s.relations.filterMap Field.relation? ↔ ∃ f ∈ s.fields, f.body = .relation rel := by
  have hrelation {f : Field} : f.relation? = some rel ↔ f.body = .relation rel := by
    unfold Field.relation?
    cases f.body <;> simp
  simp only [relations, List.mem_filterMap, List.mem_filter, hrelation]
  constructor
  · rintro ⟨f, ⟨hf, -⟩, hbody⟩
    exact ⟨f, hf, hbody⟩
  · rintro ⟨f, hf, hbody⟩
    refine ⟨f, ⟨hf, ?_⟩, hbody⟩
    rw [Field.isRelation, hrelation.mpr hbody]
    rfl

end ResourceSchema

namespace Search

variable {c : Catalog} {root : String} {w : Search}

theorem follow_eq (root : String) (w : Search) (rel : RelationField) :
    ∃ new : List String, w.follow root rel = ⟨new ++ w.seen, new ++ w.pending⟩ ∧ new.Nodup ∧
      ∀ t, t ∈ new ↔ (rel.accessor = none ∧ rel.target = some t) ∧ t ≠ root ∧ t ∉ w.seen := by
  unfold follow
  split
  · next t htarget haccessor =>
    split
    · next henters => exact ⟨[t], rfl, List.pairwise_singleton _ t, fun u => by grind⟩
    · next hstays => exact ⟨[], rfl, List.nodup_nil, fun u => by grind⟩
  · next hnone => exact ⟨[], rfl, List.nodup_nil, fun u => by grind⟩

theorem foldl_follow (root : String) (rels : List RelationField) (w : Search) :
    ∃ new : List String, rels.foldl (follow root) w = ⟨new ++ w.seen, new ++ w.pending⟩ ∧
      new.Nodup ∧ ∀ t, t ∈ new ↔
        (∃ rel ∈ rels, rel.accessor = none ∧ rel.target = some t) ∧ t ≠ root ∧ t ∉ w.seen := by
  induction rels generalizing w with
  | nil => exact ⟨[], rfl, List.nodup_nil, by simp⟩
  | cons rel rest ih =>
    obtain ⟨first, hfollow, hfirst, hmemfirst⟩ := follow_eq root w rel
    obtain ⟨later, hfold, hlater, hmemlater⟩ := ih (w.follow root rel)
    simp only [hfollow, List.mem_append, not_or] at hfold hmemlater
    refine ⟨later ++ first, ?_, List.nodup_append.mpr ⟨hlater, hfirst, ?_⟩, fun t => ?_⟩
    · rw [List.foldl_cons, hfollow, hfold]
      simp only [List.append_assoc]
    · rintro t ht _ hfirst rfl
      exact ((hmemlater t).mp ht).2.2.1 hfirst
    · simp only [List.mem_append, hmemfirst, hmemlater, List.mem_cons, exists_eq_or_imp]
      grind

/-- One round goes well, and follows one type. -/
theorem IsBelow.round (h : w.IsBelow c root) (hroot : root ∈ c.types) {type : String}
    {pending : List String} (hpending : w.pending = type :: pending) :
    ∃ new : List String, w.round c root = .ok ⟨new ++ w.seen, new ++ pending⟩ ∧
      IsBelow c root ⟨new ++ w.seen, new ++ pending⟩ := by
  obtain ⟨seen, _⟩ := w
  obtain rfl := hpending
  have htype : type ∈ c.types := by
    rcases h.pending type List.mem_cons_self with rfl | hseen
    · exact hroot
    · exact (h.reached type hseen).mem_types
  obtain ⟨s, hs⟩ := Catalog.exists_of_mem_types htype
  obtain ⟨new, hfold, hdistinct, hnew⟩ :=
    foldl_follow root (s.relations.filterMap Field.relation?) ⟨seen, pending⟩
  refine ⟨new, ?_, h.follow hdistinct fun t => (hnew t).trans (and_congr_left fun _ => ?_)⟩
  · rw [Search.round]
    dsimp only
    rw [Catalog.schema_of_find? hs]
    exact congrArg Except.ok hfold
  · simp only [Catalog.Embeds, hs, Option.some.injEq, ResourceSchema.mem_relations]
    constructor
    · rintro ⟨rel, ⟨f, hf, hbody⟩, hembeds⟩
      exact ⟨s, f, rel, rfl, hf, hbody, hembeds⟩
    · rintro ⟨_, f, rel, rfl, hf, hbody, hembeds⟩
      exact ⟨rel, ⟨f, hf, hbody⟩, hembeds⟩

theorem IsBelow.length_seen_lt (h : w.IsBelow c root) (hroot : root ∈ c.types) :
    w.seen.length < c.size := by
  have hdistinct : (root :: w.seen).Nodup :=
    List.nodup_cons.mpr ⟨fun hmem => (h.reached root hmem).1 rfl, h.distinct⟩
  refine Catalog.length_le_size hdistinct fun t ht => ?_
  rcases List.mem_cons.mp ht with rfl | ht
  · exact hroot
  · exact (h.reached t ht).mem_types

theorem rounds_of_ended (c : Catalog) (root : String) (seen : List String) (n : Nat) :
    rounds c root n ⟨seen, []⟩ = .ok ⟨seen, []⟩ := by
  induction n with
  | zero => rfl
  | succ n ih => exact ih

/-- With a round to go for each type that is still pending or to be found, the search ends. -/
theorem IsBelow.rounds (h : w.IsBelow c root) (hroot : root ∈ c.types) {n : Nat}
    (hn : c.size + w.pending.length ≤ n + w.seen.length + 1) :
    ∃ seen : List String, w.rounds c root n = .ok ⟨seen, []⟩ ∧ IsBelow c root ⟨seen, []⟩ := by
  -- a round takes one type off the worklist, and what it adds counts on both sides of the bound
  induction n generalizing w with
  | zero =>
    have hlt := h.length_seen_lt hroot
    have hpending : w.pending = [] := List.eq_nil_of_length_eq_zero (by omega)
    obtain ⟨seen, _⟩ := w
    obtain rfl := hpending
    exact ⟨seen, rfl, h⟩
  | succ n ih =>
    cases hpending : w.pending with
    | nil =>
      obtain ⟨seen, _⟩ := w
      obtain rfl := hpending
      exact ⟨seen, rounds_of_ended c root seen (n + 1), h⟩
    | cons type pending =>
      obtain ⟨new, hround, hbelow⟩ := h.round hroot hpending
      rw [hpending, List.length_cons] at hn
      obtain ⟨seen, hrounds, hend⟩ := ih hbelow (by simp only [List.length_append]; omega)
      refine ⟨seen, ?_, hend⟩
      rw [Search.rounds, hround]
      exact hrounds

end Search
end FieldPlan
