import FieldPlan.Model.Declared
import FieldPlan.Proofs.Plan.Aggregates
import FieldPlan.Proofs.Plan.Merging
import FieldPlan.Proofs.Service.Transparency
/-!
# The rules behind a plan

What the fields of a resource contribute to its plan, said by rules instead of by a walk. The plan is
the sum of what the rules give; it exists exactly if no path is too deep and the loads of each path
agree.
-/
namespace FieldPlan

open Cache

namespace Service

/-- The rules: which load the named fields of a resource, which stands below these ancestors at a
path, contribute where. -/
inductive Contributes (s : Service) (nested : Selection) :
    List String → ResourceSchema → String → List String → String → RelationLoad → Prop where
  /-- an extra path is loaded in full -/
  | extra {ancestors : List String} {r : ResourceSchema} {path : String} {names : List String}
      {name : String} {f : Field} {extra : String} (hname : name ∈ names)
      (hfield : r.get? name = some f) (hextra : extra ∈ f.extras) :
      Contributes s nested ancestors r path names (joinPath path extra) {}
  /-- an accessor needs one column -/
  | accessor {ancestors : List String} {r : ResourceSchema} {path : String} {names : List String}
      {name : String} {f : Field} {rel : RelationField} {accessor : String} (hname : name ∈ names)
      (hfield : r.get? name = some f) (hbody : f.body = .relation rel)
      (haccessor : rel.accessor = some accessor) :
      Contributes s nested ancestors r path names (joinPath path rel.source)
        { resource := rel.target
          columns := some [s.catalog.accessorColumn rel accessor]
          constraint := rel.constraint
          many := rel.many }
  /-- a relation without a target is loaded in full -/
  | untargeted {ancestors : List String} {r : ResourceSchema} {path : String} {names : List String}
      {name : String} {f : Field} {rel : RelationField} (hname : name ∈ names)
      (hfield : r.get? name = some f) (hbody : f.body = .relation rel)
      (haccessor : rel.accessor = none) (htarget : rel.target = none) :
      Contributes s nested ancestors r path names (joinPath path rel.source)
        { constraint := rel.constraint, many := rel.many }
  /-- of a target that stands above already, only the default columns are loaded -/
  | cyclic {ancestors : List String} {r : ResourceSchema} {path : String} {names : List String}
      {name : String} {f : Field} {rel : RelationField} {target : String} (hname : name ∈ names)
      (hfield : r.get? name = some f) (hbody : f.body = .relation rel)
      (haccessor : rel.accessor = none) (htarget : rel.target = some target)
      (habove : target ∈ ancestors) :
      Contributes s nested ancestors r path names (joinPath path rel.source)
        { resource := some target
          columns := some (s.catalog.defaultColumns target)
          constraint := rel.constraint
          many := rel.many
          cyclic := true }
  /-- any other target is loaded in full -/
  | full {ancestors : List String} {r : ResourceSchema} {path : String} {names : List String}
      {name : String} {f : Field} {rel : RelationField} {target : String} (hname : name ∈ names)
      (hfield : r.get? name = some f) (hbody : f.body = .relation rel)
      (haccessor : rel.accessor = none) (htarget : rel.target = some target)
      (hbelow : target ∉ ancestors) :
      Contributes s nested ancestors r path names (joinPath path rel.source)
        { resource := some target, constraint := rel.constraint, many := rel.many }
  /-- and the rules apply to its pinned fields, else to the requested ones, else to its defaults -/
  | deeper {ancestors : List String} {r : ResourceSchema} {path : String} {names : List String}
      {name : String} {f : Field} {rel : RelationField} {target : String} {child : ResourceSchema}
      {place : String} {l : RelationLoad} (hname : name ∈ names)
      (hfield : r.get? name = some f) (hbody : f.body = .relation rel)
      (haccessor : rel.accessor = none) (htarget : rel.target = some target)
      (hbelow : target ∉ ancestors) (hchild : s.catalog.find? target = some child)
      (hrest : Contributes s nested (target :: ancestors) child (joinPath path rel.source)
        ((rel.pinned.or (nested.get? target)).getD (s.defaultFields target)) place l) :
      Contributes s nested ancestors r path names place l

variable {s : Service} {nested : Selection} {ancestors : List String} {r : ResourceSchema}
  {path : String} {names : List String} {p : String} {l : RelationLoad}

theorem childFields_of_relation {f : Field} {rel : RelationField} (h : f.body = .relation rel)
    (target : String) : s.childFields nested f target =
      (rel.pinned.or (nested.get? target)).getD (s.defaultFields target) := by
  have hrel : f.relation? = some rel := by rw [Field.relation?, h]
  unfold childFields
  rw [hrel, Option.bind_some]
  cases rel.pinned with
  | none => rfl
  | some pinned => rfl

theorem mem_collect_of_embedded {name : String} {f : Field} {rel : RelationField}
    {child : ResourceSchema} {a : Contribution} (hname : name ∈ names)
    (hfield : r.get? name = some f) (hbody : f.body = .relation rel) (haccessor : rel.accessor = none)
    (htarget : rel.target = some child.type) (hbelow : child.type ∉ ancestors)
    (hchild : s.catalog.find? child.type = some child)
    (h : a ∈ s.catalog.collect (s.childFields nested) (child.type :: ancestors) child
      (joinPath path rel.source)
      ((rel.pinned.or (nested.get? child.type)).getD (s.defaultFields child.type))) :
    a ∈ s.catalog.collect (s.childFields nested) ancestors r path names := by
  have hfound : s.catalog.child? ancestors f =
      some ⟨child, Catalog.mem_types_of_find? hchild, hbelow⟩ :=
    Catalog.child?_eq_some.mpr ⟨rel, hbody, haccessor, htarget, hchild⟩
  refine Catalog.mem_collect.mpr ⟨name, hname, f, hfield, .inr ⟨_, hfound, ?_⟩⟩
  rw [Field.source_of_relation hbody, childFields_of_relation hbody]
  exact h

theorem Contributes.mem_collect (h : s.Contributes nested ancestors r path names p l) :
    .load p l ∈ s.catalog.collect (s.childFields nested) ancestors r path names := by
  induction h with
  | extra hname hfield hextra =>
    refine Catalog.mem_collect.mpr ⟨_, hname, _, hfield, .inl ?_⟩
    exact Catalog.load_mem_contributions.mpr (.inl ⟨_, hextra, rfl, rfl⟩)
  | accessor hname hfield hbody haccessor =>
    refine Catalog.mem_collect.mpr ⟨_, hname, _, hfield, .inl ?_⟩
    refine Catalog.load_mem_contributions.mpr (.inr ⟨_, hbody, rfl, ?_⟩)
    simp [Catalog.relationLoad, haccessor]
  | untargeted hname hfield hbody haccessor htarget =>
    refine Catalog.mem_collect.mpr ⟨_, hname, _, hfield, .inl ?_⟩
    refine Catalog.load_mem_contributions.mpr (.inr ⟨_, hbody, rfl, ?_⟩)
    simp [Catalog.relationLoad, haccessor, htarget]
  | cyclic hname hfield hbody haccessor htarget habove =>
    refine Catalog.mem_collect.mpr ⟨_, hname, _, hfield, .inl ?_⟩
    refine Catalog.load_mem_contributions.mpr (.inr ⟨_, hbody, rfl, ?_⟩)
    simp [Catalog.relationLoad, haccessor, htarget, habove]
  | full hname hfield hbody haccessor htarget hbelow =>
    refine Catalog.mem_collect.mpr ⟨_, hname, _, hfield, .inl ?_⟩
    refine Catalog.load_mem_contributions.mpr (.inr ⟨_, hbody, rfl, ?_⟩)
    simp [Catalog.relationLoad, haccessor, htarget, hbelow]
  | deeper hname hfield hbody haccessor htarget hbelow hchild _ ih =>
    obtain rfl := Catalog.type_of_find? hchild
    exact mem_collect_of_embedded hname hfield hbody haccessor htarget hbelow hchild ih

theorem Contributes.mono (h : s.Contributes nested ancestors r path names p l)
    {names' : List String} (hsub : ∀ n ∈ names, n ∈ names') :
    s.Contributes nested ancestors r path names' p l := by
  cases h with
  | extra hname hfield hextra => exact .extra (hsub _ hname) hfield hextra
  | accessor hname hfield hbody haccessor => exact .accessor (hsub _ hname) hfield hbody haccessor
  | untargeted hname hfield hbody haccessor htarget =>
    exact .untargeted (hsub _ hname) hfield hbody haccessor htarget
  | cyclic hname hfield hbody haccessor htarget habove =>
    exact .cyclic (hsub _ hname) hfield hbody haccessor htarget habove
  | full hname hfield hbody haccessor htarget hbelow =>
    exact .full (hsub _ hname) hfield hbody haccessor htarget hbelow
  | deeper hname hfield hbody haccessor htarget hbelow hchild hrest =>
    exact .deeper (hsub _ hname) hfield hbody haccessor htarget hbelow hchild hrest

private theorem contributes_of_contributions {name : String} {f : Field} (hname : name ∈ names)
    (hfield : r.get? name = some f) (h : .load p l ∈ s.catalog.contributions ancestors path f) :
    s.Contributes nested ancestors r path names p l := by
  rcases Catalog.load_mem_contributions.mp h with ⟨extra, hextra, rfl, rfl⟩ | ⟨rel, hbody, rfl, rfl⟩
  · exact .extra hname hfield hextra
  · cases haccessor : rel.accessor with
    | some accessor =>
      simp only [Catalog.relationLoad, haccessor]
      exact .accessor hname hfield hbody haccessor
    | none =>
      cases htarget : rel.target with
      | none =>
        simp only [Catalog.relationLoad, haccessor, htarget]
        exact .untargeted hname hfield hbody haccessor htarget
      | some target =>
        by_cases habove : target ∈ ancestors
        · simp only [Catalog.relationLoad, haccessor, htarget, if_pos habove]
          exact .cyclic hname hfield hbody haccessor htarget habove
        · simp only [Catalog.relationLoad, haccessor, htarget, if_neg habove]
          exact .full hname hfield hbody haccessor htarget habove

theorem contributes_of_mem_collect
    (h : .load p l ∈ s.catalog.collect (s.childFields nested) ancestors r path names) :
    s.Contributes nested ancestors r path names p l := by
  induction h using Catalog.collect_induction with
  | made hname hget hmade => exact contributes_of_contributions hname hget hmade
  | @within _ _ _ _ _ _ child hname hget hchild _ ih =>
    obtain ⟨rel, hbody, haccessor, htarget, hfind⟩ := Catalog.child?_eq_some.mp hchild
    rw [Field.source_of_relation hbody, childFields_of_relation hbody] at ih
    exact .deeper hname hget hbody haccessor htarget child.2.2 hfind ih

theorem contributes_iff_mem_collect : s.Contributes nested ancestors r path names p l ↔
    .load p l ∈ s.catalog.collect (s.childFields nested) ancestors r path names :=
  ⟨Contributes.mem_collect, contributes_of_mem_collect⟩

/-- What the rules contribute to the plan of a resource. -/
def Needs (s : Service) (nested : Selection) (r : ResourceSchema) (names : List String) :
    String → RelationLoad → Prop :=
  s.Contributes nested [r.type] r "" names

theorem builtPlan_isOk_iff (s : Service) (nested : Selection) (r : ResourceSchema)
    (names : List String) : (∃ p, s.builtPlan nested r names = .ok p) ↔
      (∀ path l, s.Needs nested r names path l → pathDepth path ≤ s.settings.maxDepth) ∧
        ∀ path l k, s.Needs nested r names path l → s.Needs nested r names path k → l.Agree k := by
  have hadd := LoadPlan.addAll_isOk_iff s.settings.maxDepth
    (s.catalog.collect (s.childFields nested) [r.type] r "" names)
  have hbuilt : (∃ p, s.builtPlan nested r names = .ok p) ↔
      ∃ q, LoadPlan.empty.addAll s.settings.maxDepth
        (s.catalog.collect (s.childFields nested) [r.type] r "" names) = .ok q := by
    unfold builtPlan
    cases LoadPlan.empty.addAll s.settings.maxDepth
      (s.catalog.collect (s.childFields nested) [r.type] r "" names) <;> simp [Except.map]
  simp only [hbuilt, hadd, Needs, contributes_iff_mem_collect]
  exact ⟨fun h => ⟨h.depth, h.agree⟩, fun h => ⟨h.1, h.2⟩⟩

/-- A plan holds at each path the sum of what is contributed there, and nothing else. -/
theorem builtPlan_relations {names : List String} {p : LoadPlan}
    (h : s.builtPlan nested r names = .ok p) :
    p.relations.keys.Pairwise (· < ·) ∧
      (∀ path, path ∈ p.relations.keys ↔ ∃ l, s.Needs nested r names path l) ∧
        ∀ path m, (path, m) ∈ p.relations → m.Sums (s.Needs nested r names path) := by
  unfold builtPlan at h
  cases hadd : LoadPlan.empty.addAll s.settings.maxDepth
      (s.catalog.collect (s.childFields nested) [r.type] r "" names) with
  | error e => rw [hadd] at h; cases h
  | ok q =>
    rw [hadd] at h
    obtain rfl := Except.ok.inj h
    have hkeys := (LoadPlan.distinctKeys_empty.addAll hadd).1
    have haccounts := LoadPlan.accounts_of_addAll hadd
    refine ⟨Entries.pairwise_keys_sorted hkeys, fun path => ?_, fun path m hm => ?_⟩
    · rw [haccounts.mem_paths]
      exact exists_congr fun l => contributes_iff_mem_collect.symm
    · exact (haccounts.sums hkeys hm).congr fun l => contributes_iff_mem_collect.symm

theorem contributed_of_mem_aggregates {names : List String} {p : LoadPlan}
    (h : s.builtPlan nested r names = .ok p) {e : String × AggregateLoad}
    (he : e ∈ p.aggregates) :
    .aggregate e.1 e.2 ∈ s.catalog.collect (s.childFields nested) [r.type] r "" names := by
  unfold builtPlan at h
  cases hadd : LoadPlan.empty.addAll s.settings.maxDepth
      (s.catalog.collect (s.childFields nested) [r.type] r "" names) with
  | error e => rw [hadd] at h; cases h
  | ok q =>
    rw [hadd] at h
    obtain rfl := Except.ok.inj h
    have he : e ∈ q.aggregates := Entries.mem_sorted.mp he
    exact (LoadPlan.mem_aggregates_of_addAll hadd he).resolve_left List.not_mem_nil

section Lookup

variable {names : List String} {p : LoadPlan} {path : String} {m : RelationLoad}

theorem sums_of_get? (h : s.builtPlan nested r names = .ok p)
    (hm : p.relations.get? path = some m) : m.Sums (s.Needs nested r names path) :=
  (builtPlan_relations h).2.2 path m (Entries.mem_of_get? hm)

theorem exists_get? (h : s.builtPlan nested r names = .ok p)
    (hl : s.Needs nested r names path l) : ∃ m, p.relations.get? path = some m := by
  have hpath := ((builtPlan_relations h).2.1 path).mpr ⟨l, hl⟩
  cases hget : p.relations.get? path with
  | none => exact absurd hpath (Entries.get?_eq_none.mp hget)
  | some m => exact ⟨m, rfl⟩

theorem resource_ne_empty (hempty : "" ∉ s.catalog.types) (hr : s.catalog.find? r.type = some r)
    (hl : s.Needs nested r names path l) : l.resource ≠ some "" := fun hresource =>
  hempty (Catalog.resource_mem_types hr (contributes_iff_mem_collect.mp hl) hresource)

end Lookup

/-- Building a plan asks for defaults only, so that a new process builds it as if it had no cache. -/
theorem run_build [Room] (s : Service) (nested : Selection) (r : ResourceSchema) (names : List String) :
    (((s.walk nested).build r names).run (s.newStore none)).1 =
      ((s.walk nested).build r names).eval := by
  let qs := (s.catalog.types.filterMap s.catalog.find?).map (Question.fields · none [])
  have hregistered : ∀ q ∈ qs, s.catalog.find? q.resource.type = some q.resource := by
    intro q hq
    obtain ⟨r', hr', rfl⟩ := List.mem_map.mp hq
    obtain ⟨type, -, hfind⟩ := List.mem_filterMap.mp hr'
    exact (Catalog.type_of_find? hfind).symm ▸ hfind
  have hpayload : ∀ q ∈ qs, q.payload s = resolutionPayload s.settings.order none [] := by
    intro q hq
    obtain ⟨r', -, rfl⟩ := List.mem_map.mp hq
    simp [Question.payload, ResourceSchema.knownExclusions, unique, sortNames]
  have hqs : s.Distinguishes qs :=
    ⟨hregistered, fun p hp q hq _ => (hpayload p hp).trans (hpayload q hq).symm⟩
  have hfollows : ((s.walk nested).build r names).Follows (s.legend qs) := by
    refine follows_build (fun type r' hr' => hqs.isIn ?_) nested r names
    exact List.mem_map_of_mem (List.mem_filterMap.mpr ⟨type, Catalog.mem_types_of_find? hr', hr'⟩)
  have hnone : ∀ b, (none : Option SharedStore) = some b → b.texts = [] := by simp
  exact (Task.run_eq_eval (s.legend_lossless qs) _ hfollows _
    (Fleet.start_faithful s (s.legend qs) hnone 0)).1

/-- A plan is built if and only if the paths of what the rules contribute are short enough and no
path is given two resources or two constraints; it then holds the sum of the contributions of each
path. Compiling builds it for the resolved requests. -/
theorem build_by_rules [Room] (s : Service) (nested : Selection) (r : ResourceSchema)
    (names : List String) :
    ((∃ p, ((s.walk nested).build r names).eval = .ok p) ↔
        (∀ path l, s.Needs nested r names path l → pathDepth path ≤ s.settings.maxDepth) ∧
          ∀ path l k, s.Needs nested r names path l → s.Needs nested r names path k →
            l.Agree k) ∧
      (∀ p, ((s.walk nested).build r names).eval = .ok p →
        p.relations.keys.Pairwise (· < ·) ∧
          (∀ path, path ∈ p.relations.keys ↔ ∃ l, s.Needs nested r names path l) ∧
            ∀ path m, (path, m) ∈ p.relations → m.Sums (s.Needs nested r names path)) ∧
      (((s.walk nested).build r names).run (s.newStore none)).1 =
        ((s.walk nested).build r names).eval ∧
      ∀ fields requests, (s.compile r fields requests).eval =
        ((s.walk (s.chosenNested r.type requests).sorted).build r (plannedFields r fields)).eval := by
  have hbuilt : ((s.walk nested).build r names).eval =
      (s.builtPlan nested r names).mapError fun e => .raised (.plan e) := eval_build nested r names
  have hok (p : LoadPlan) : ((s.walk nested).build r names).eval = .ok p ↔
      s.builtPlan nested r names = .ok p := by
    rw [hbuilt]
    cases s.builtPlan nested r names with
    | error e => exact ⟨fun h => (nomatch h), fun h => (nomatch h)⟩
    | ok q => simp [mapError_ok]
  refine ⟨?_, fun p hp => builtPlan_relations ((hok p).mp hp), s.run_build nested r names, ?_⟩
  · simp only [hok]
    exact s.builtPlan_isOk_iff nested r names
  · intro fields requests
    rw [eval_compile, eval_build]

end Service

namespace Drafts

attribute [local instance] Room.usual

def drafts : RelationField := ⟨"comments", none, none, none, some "", true⟩

def reviews : RelationField := ⟨"comments", none, none, none, some "published", true⟩

def article : ResourceSchema where
  type := "article"
  fields := [⟨"drafts", .relation drafts, []⟩, ⟨"reviews", .relation reviews, []⟩]
  defaults := ["drafts", "reviews"]
  fixed := []
  model := none

def published : Constraint := .comparing "state" .equal (.text "published")

def service : Service where
  catalog := ⟨⟨[article], [], [("published", published)], true⟩, rfl, rfl⟩
  settings := default
  query := none

/-- An empty constraint is merged with any other, although the two differ. -/
theorem empty_constraint_merges :
    ¬ ((∃ p, ((service.walk []).build article ["drafts", "reviews"]).eval = .ok p) ↔
      (∀ path l, service.Needs [] article ["drafts", "reviews"] path l →
        pathDepth path ≤ service.settings.maxDepth) ∧
      ∀ path l k, service.Needs [] article ["drafts", "reviews"] path l →
        service.Needs [] article ["drafts", "reviews"] path k →
          (∀ x y, l.resource = some x → k.resource = some y → x = y) ∧
            ∀ x y, l.constraint = some x → k.constraint = some y → x = y) := by
  intro h
  have hcollect : service.catalog.collect (service.childFields []) [article.type] article ""
      ["drafts", "reviews"] = [.load "comments" { constraint := some "", many := true },
        .load "comments" { constraint := some "published", many := true }] := by
    simp [Catalog.collect, ResourceSchema.get?, article, Catalog.contributions, Catalog.child?,
      Field.embedded?, Field.relation?, Catalog.relationLoad, drafts, reviews, joinPath]
  have hbuilt : ∃ p, ((service.walk []).build article ["drafts", "reviews"]).eval = .ok p := by
    rw [Service.eval_build, Service.builtPlan, hcollect]
    exact ⟨_, rfl⟩
  have hdrafts : service.Needs [] article ["drafts", "reviews"] "comments"
      { constraint := some "", many := true } :=
    Service.contributes_of_mem_collect (by rw [hcollect]; simp)
  have hreviews : service.Needs [] article ["drafts", "reviews"] "comments"
      { constraint := some "published", many := true } :=
    Service.contributes_of_mem_collect (by rw [hcollect]; simp)
  have hsame := ((h.mp hbuilt).2 "comments" _ _ hdrafts hreviews).2 "" "published" rfl rfl
  exact absurd hsame (by decide)

end Drafts
end FieldPlan
