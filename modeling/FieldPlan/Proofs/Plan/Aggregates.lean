import FieldPlan.Proofs.Plan.Contributions
import FieldPlan.Service
/-!
# The aggregates of a plan

Every aggregate of a plan comes from a field that declares it. Those at the root come from fields of
the root: further down the path is not empty, since relationships have names.
-/
namespace FieldPlan

namespace Entries

variable {α : Type}

theorem mem_setIfAbsent {key : String} {value : α} {entries : Entries α} {e : String × α}
    (h : e ∈ entries.setIfAbsent key value) : e = (key, value) ∨ e ∈ entries := by
  unfold setIfAbsent at h
  split at h
  · exact .inr h
  · exact mem_set h

theorem mem_foldl {step : Entries α → String × α → Entries α}
    (hstep : ∀ es first e, e ∈ step es first → e = first ∨ e ∈ es) {entries start : Entries α}
    {e : String × α} (h : e ∈ entries.foldl step start) : e ∈ entries ∨ e ∈ start := by
  induction entries generalizing start with
  | nil => exact .inr h
  | cons first rest ih =>
    rcases ih h with h | h
    · exact .inl (List.mem_cons_of_mem first h)
    · rcases hstep _ _ _ h with rfl | h
      · exact .inl List.mem_cons_self
      · exact .inr h

theorem mem_foldl_set {entries start : Entries α} {e : String × α}
    (h : e ∈ entries.foldl (fun es e => es.set e.1 e.2) start) : e ∈ entries ∨ e ∈ start :=
  mem_foldl (fun _ _ _ => mem_set) h

theorem mem_foldl_setIfAbsent {entries start : Entries α} {e : String × α}
    (h : e ∈ entries.foldl (fun es e => setIfAbsent e.1 e.2 es) start) :
    e ∈ entries ∨ e ∈ start :=
  mem_foldl (fun _ _ _ => mem_setIfAbsent) h

theorem mem_sorted {entries : Entries α} {e : String × α} : e ∈ entries.sorted ↔ e ∈ entries :=
  (List.mergeSort_perm entries _).mem_iff

end Entries

/-- An aggregate at the root that a field of a resource declares. -/
def ResourceSchema.Roots (r : ResourceSchema) (a : AggregateLoad) : Prop :=
  ∃ f ∈ r.fields, ∃ declared, f.body = .aggregate declared ∧ a = declared.load ""

theorem Field.aggregate?_eq_some {f : Field} {a : AggregateField} :
    f.aggregate? = some a ↔ f.body = .aggregate a := by
  unfold Field.aggregate?
  cases f.body with
  | aggregate b => simp
  | _ => simp

namespace LoadPlan

variable {maxDepth : Nat} {p q : LoadPlan} {cs : List Contribution}

theorem aggregates_addLoad {path : String} {l : RelationLoad}
    (h : p.addLoad maxDepth path l = .ok q) : q.aggregates = p.aggregates := by
  unfold addLoad at h
  split at h
  · cases h
  · split at h
    · rw [← Except.ok.inj h]
    · next there _ =>
      cases hmerge : there.merge l path with
      | error err => rw [hmerge] at h; cases h
      | ok m =>
        rw [hmerge] at h
        rw [← Except.ok.inj h]

theorem mem_aggregates_of_addAll (hq : p.addAll maxDepth cs = .ok q) {e : String × AggregateLoad}
    (he : e ∈ q.aggregates) : e ∈ p.aggregates ∨ .aggregate e.1 e.2 ∈ cs := by
  induction cs generalizing p with
  | nil =>
    obtain rfl := Except.ok.inj hq
    exact .inl he
  | cons c cs ih =>
    rw [addAll_cons] at hq
    cases c with
    | aggregate key a =>
      rcases ih hq with h | h
      · rcases Entries.mem_setIfAbsent h with rfl | h
        · exact .inr List.mem_cons_self
        · exact .inl h
      · exact .inr (List.mem_cons_of_mem _ h)
    | load path l =>
      cases hadd : p.addLoad maxDepth path l with
      | error err => simp only [add, hadd] at hq; cases hq
      | ok r =>
        simp only [add, hadd] at hq
        rcases ih hq with h | h
        · exact .inl (aggregates_addLoad hadd ▸ h)
        · exact .inr (List.mem_cons_of_mem _ h)

theorem mem_withAggregates {more : Entries AggregateLoad} {e : String × AggregateLoad}
    (h : e ∈ (p.withAggregates more).aggregates) : e ∈ p.aggregates ∨ e ∈ more := by
  rcases Entries.mem_foldl_set (Entries.mem_sorted.mp h) with h | h
  · exact .inl h
  · exact .inr ((Entries.mem_foldl_set h).resolve_right List.not_mem_nil)

end LoadPlan

theorem joinPath_ne_empty {path segment : String} (h : segment ≠ "") :
    joinPath path segment ≠ "" := by
  unfold joinPath
  split
  · exact h
  · intro hempty
    have hlength := congrArg (fun s => s.toList.length) hempty
    simp [String.toList_append] at hlength

theorem Catalog.roots_of_mem_collect {c : Catalog} {children : Field → String → List String}
    (hsource : ∀ type r, c.find? type = some r → ∀ f ∈ r.fields, ∀ rel, f.body = .relation rel →
      rel.source ≠ "") {ancestors : List String} {r : ResourceSchema}
    (hr : c.find? r.type = some r) {path : String} {names : List String}
    {e : String × AggregateLoad}
    (h : .aggregate e.1 e.2 ∈ c.collect children ancestors r path names)
    (hroot : e.2.path = "") : path = "" ∧ r.Roots e.2 := by
  induction h using collect_induction with
  | @made ancestors r path names name f hname hget hmade =>
    -- the field's own aggregate has the path it is met at
    obtain ⟨declared, hbody, -, hload⟩ := aggregate_mem_contributions.mp hmade
    have hpath : path = "" := by
      rw [hload] at hroot
      exact hroot
    exact ⟨hpath, f, List.mem_of_find?_eq_some hget, declared, hbody, hpath ▸ hload⟩
  | @within ancestors r path names name f child hname hget hchild _ ih =>
    obtain ⟨rel, hbody, -, -, hfind⟩ := child?_eq_some.mp hchild
    have hbelow := (ih hfind).1
    rw [Field.source_of_relation hbody] at hbelow
    have hf : f ∈ r.fields := List.mem_of_find?_eq_some hget
    exact absurd hbelow (joinPath_ne_empty (hsource _ r hr f hf rel hbody))

theorem mem_rootAggregates {fields : List Field} {e : String × AggregateLoad}
    (h : e ∈ rootAggregates fields) :
    ∃ f ∈ fields, f.name = e.1 ∧ ∃ declared, f.body = .aggregate declared ∧
      e.2 = declared.load "" := by
  have hload := (Entries.mem_foldl_setIfAbsent (Entries.mem_sorted.mp h)).resolve_right
    List.not_mem_nil
  obtain ⟨f, hf, he⟩ := List.mem_filterMap.mp hload
  obtain ⟨declared, hdeclared, rfl⟩ := Option.map_eq_some_iff.mp he
  exact ⟨f, hf, rfl, declared, Field.aggregate?_eq_some.mp hdeclared, rfl⟩

namespace Service

variable {s : Service} {r : ResourceSchema}

theorem mem_loadAggregates {aliases : Option (List String)} {e : String × AggregateLoad}
    (h : e ∈ s.loadAggregates r aliases) :
    ∃ f ∈ r.fields, f.name = e.1 ∧ ∃ declared, f.body = .aggregate declared ∧
      e.2 = declared.load "" := by
  obtain ⟨f, hf, hdeclared⟩ := mem_rootAggregates h
  refine ⟨f, ?_, hdeclared⟩
  unfold ResourceSchema.chosenAggregates at hf
  split at hf
  · exact (List.mem_filter.mp (List.mem_filter.mp hf).1).1
  · obtain ⟨name, -, hget⟩ := List.mem_filterMap.mp (List.mem_filter.mp hf).1
    exact List.mem_of_find?_eq_some hget

end Service
end FieldPlan
