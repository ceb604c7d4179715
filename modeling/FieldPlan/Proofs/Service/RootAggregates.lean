import FieldPlan.Proofs.Model.Loading
import FieldPlan.Proofs.Service.Rules
import FieldPlan.Proofs.Service.Selection
import FieldPlan.Proofs.Service.Serialization
import FieldPlan.Proofs.Service.Union
/-!
# Root aggregates in the plan

A plan keeps the aggregates of its root and those met below it in one map, under dotted keys, and
the first one under a key stays. So an aggregate that is requested at the root is in the plan unless
one that is met below the root has its alias for a key, and such a key has a dot in it.
-/
namespace FieldPlan

open Cache

theorem LoadPlan.get?_withAggregates {p : LoadPlan} {more : Entries AggregateLoad}
    (hp : p.aggregates.keys.Nodup) (hmore : more.keys.Nodup) (key : String) :
    (p.withAggregates more).aggregates.get? key =
      (p.aggregates.get? key).or (more.get? key) := by
  have hstart : (Entries.ofList more).keys.Nodup := Entries.nodup_keys_ofList more
  unfold withAggregates
  rw [Entries.get?_sorted (Entries.nodup_keys_foldl_set _ hstart), Entries.get?_foldl_set hp,
    Entries.ofList_of_nodup hmore]

namespace Service

/-- A relation among the named fields embeds a resource that does not stand above it. -/
def Embeds (s : Service) (ancestors : List String) (r : ResourceSchema) (names : List String)
    (rel : RelationField) (child : ResourceSchema) : Prop :=
  ∃ name ∈ names, ∃ f, r.get? name = some f ∧ f.body = .relation rel ∧ rel.accessor = none ∧
    rel.target = some child.type ∧ child.type ∉ ancestors ∧ s.catalog.find? child.type = some child

/-- The fields that are planned below a relation: the pinned ones, else the requested ones, else the
defaults. -/
def fieldsBelow (s : Service) (nested : Selection) (rel : RelationField) (type : String) :
    List String :=
  (rel.pinned.or (nested.get? type)).getD (s.defaultFields type)

/-- The rules: which aggregates are met under which keys among the named fields of a resource at a
path, and among those of the resources they embed. -/
inductive Computes (s : Service) (nested : Selection) :
    List String → ResourceSchema → String → List String → String → AggregateLoad → Prop where
  | own {ancestors : List String} {r : ResourceSchema} {path : String} {names : List String}
      {f : Field} {declared : AggregateField} (hname : f.name ∈ names)
      (hfield : r.get? f.name = some f) (hbody : f.body = .aggregate declared) :
      Computes s nested ancestors r path names (joinPath path f.name) (declared.load path)
  | embedded {ancestors : List String} {r : ResourceSchema} {path : String} {names : List String}
      {rel : RelationField} {child : ResourceSchema} {key : String} {a : AggregateLoad}
      (hembeds : s.Embeds ancestors r names rel child)
      (hrest : Computes s nested (child.type :: ancestors) child (joinPath path rel.source)
        (s.fieldsBelow nested rel child.type) key a) :
      Computes s nested ancestors r path names key a

def ComputesBelow (s : Service) (nested : Selection) (r : ResourceSchema) (names : List String)
    (key : String) (a : AggregateLoad) : Prop :=
  ∃ rel child, s.Embeds [r.type] r names rel child ∧
    s.Computes nested [child.type, r.type] child rel.source (s.fieldsBelow nested rel child.type)
      key a

section Rules

variable {s : Service} {nested : Selection} {ancestors : List String} {r : ResourceSchema}
  {path : String} {names : List String} {key : String} {a : AggregateLoad}

theorem Computes.mem_collect (h : s.Computes nested ancestors r path names key a) :
    .aggregate key a ∈ s.catalog.collect (s.childFields nested) ancestors r path names := by
  induction h with
  | own hname hfield hbody =>
    refine Catalog.mem_collect.mpr ⟨_, hname, _, hfield, .inl ?_⟩
    exact Catalog.aggregate_mem_contributions.mpr ⟨_, hbody, rfl, rfl⟩
  | embedded hembeds _ ih =>
    obtain ⟨name, hname, f, hfield, hbody, haccessor, htarget, habove, hfind⟩ := hembeds
    exact mem_collect_of_embedded hname hfield hbody haccessor htarget habove hfind ih

theorem computes_of_mem_collect
    (h : .aggregate key a ∈ s.catalog.collect (s.childFields nested) ancestors r path names) :
    s.Computes nested ancestors r path names key a := by
  induction h using Catalog.collect_induction with
  | made hname hget hmade =>
    obtain ⟨declared, hbody, rfl, rfl⟩ := Catalog.aggregate_mem_contributions.mp hmade
    obtain rfl := ResourceSchema.name_of_get? hget
    exact .own hname hget hbody
  | @within _ _ _ _ name f child hname hget hchild _ ih =>
    obtain ⟨rel, hbody, haccessor, htarget, hfind⟩ := Catalog.child?_eq_some.mp hchild
    rw [Field.source_of_relation hbody, childFields_of_relation hbody] at ih
    exact .embedded ⟨name, hname, f, hget, hbody, haccessor, htarget, child.2.2, hfind⟩ ih

theorem computes_iff_mem_collect : s.Computes nested ancestors r path names key a ↔
    .aggregate key a ∈ s.catalog.collect (s.childFields nested) ancestors r path names :=
  ⟨Computes.mem_collect, computes_of_mem_collect⟩

/-- At the root an aggregate is met under its alias, or it is met below the root. -/
theorem Computes.declared_or_below (h : s.Computes nested [r.type] r "" names key a) :
    (∃ f declared, r.get? key = some f ∧ f.body = .aggregate declared ∧ a = declared.load "") ∨
      s.ComputesBelow nested r names key a := by
  cases h with
  | own hname hfield hbody => exact .inl ⟨_, _, hfield, hbody, rfl⟩
  | embedded hembeds hrest => exact .inr ⟨_, _, hembeds, hrest⟩

theorem Computes.dot_mem (h : s.Computes nested ancestors r path names key a) (hpath : path ≠ "") :
    '.' ∈ key.toList := by
  induction h with
  | own hname hfield hbody => simp [joinPath, hpath]
  | embedded hembeds hrest ih =>
    apply ih
    intro hempty
    have hlength := congrArg (fun path => path.toList.length) hempty
    simp [joinPath, hpath] at hlength

theorem ComputesBelow.dot_mem (h : s.ComputesBelow nested r names key a)
    (hsource : ∀ f ∈ r.fields, ∀ rel ∈ f.relation?, rel.source ≠ "") : '.' ∈ key.toList := by
  obtain ⟨rel, child, ⟨name, -, f, hget, hbody, -⟩, hcomputes⟩ := h
  have hf : f ∈ r.fields := List.mem_of_find?_eq_some hget
  have hrel : rel ∈ f.relation? := by
    rw [Field.relation?, hbody]
    rfl
  exact hcomputes.dot_mem (hsource f hf rel hrel)

theorem get?_aggregates_builtPlan {p : LoadPlan} (hp : s.builtPlan nested r names = .ok p)
    (key : String) :
    (∃ a, p.aggregates.get? key = some a ∧ s.Computes nested [r.type] r "" names key a) ∨
      p.aggregates.get? key = none ∧ ∀ a, ¬ s.Computes nested [r.type] r "" names key a := by
  cases hget : p.aggregates.get? key with
  | some a =>
    have hcollected := contributed_of_mem_aggregates hp (Entries.mem_of_get? hget)
    exact .inl ⟨a, rfl, computes_iff_mem_collect.mpr hcollected⟩
  | none =>
    refine .inr ⟨rfl, fun a ha => ?_⟩
    have hkey : key ∈ p.aggregates.keys :=
      (mem_aggregates_builtPlan hp key).mpr ⟨a, computes_iff_mem_collect.mp ha⟩
    exact Entries.get?_eq_none.mp hget hkey

end Rules

/-- In the plan for the current request an aggregate is met under a key below the root. -/
def NestsUnder (s : Service) (r : ResourceSchema) (key : String) (a : AggregateLoad) : Prop :=
  s.ComputesBelow (s.chosenNested r.type s.nestedRequests).sorted r
    (plannedFields r (s.shownFields r (s.requestedFields r) [])) key a

/-- The current request asks for an aggregate of a resource: the aggregate is loaded for the query,
or its field is shown. -/
inductive AsksAtRoot [Room] (s : Service) (r : ResourceSchema) : String → AggregateLoad → Prop where
  | loaded {key : String} {a : AggregateLoad} (h : (key, a) ∈ s.loadAggregates r none) :
      AsksAtRoot s r key a
  | shown {fields : List String} {f : Field} {declared : AggregateField}
      (hfields : (s.resolveFields r []).eval = .ok fields) (hf : f ∈ r.fields)
      (hshown : f.name ∈ fields) (hbody : f.body = .aggregate declared) :
      AsksAtRoot s r f.name (declared.load "")

section Request

variable {s : Service} {r : ResourceSchema} {p : LoadPlan} {key : String} {a : AggregateLoad}

variable [Room]

theorem AsksAtRoot.declared (h : s.AsksAtRoot r key a) :
    ∃ f ∈ r.fields, f.name = key ∧ ∃ declared, f.body = .aggregate declared ∧
      a = declared.load "" := by
  cases h with
  | loaded h => exact mem_loadAggregates h
  | shown hfields hf hshown hbody => exact ⟨_, hf, rfl, _, hbody, rfl⟩

theorem AsksAtRoot.computes_or_loaded (h : s.AsksAtRoot r key a) (hnames : r.names.Nodup) :
    s.Computes (s.chosenNested r.type s.nestedRequests).sorted [r.type] r ""
        (plannedFields r (s.shownFields r (s.requestedFields r) [])) key a ∨
      (s.loadAggregates r none).get? key = some a := by
  cases h with
  | loaded h => exact .inr ((Entries.get?_eq_some (s.nodup_keys_loadAggregates r none)).mpr h)
  | @shown fields f declared hfields hf hshown hbody =>
    rw [eval_resolveFields] at hfields
    obtain rfl := Except.ok.inj hfields
    have hget : r.get? f.name = some f := (ResourceSchema.get?_eq_some hnames).mpr ⟨hf, rfl⟩
    have hdeclares : r.declares f.name = true := by simp [ResourceSchema.declares, hget]
    have hplanned := mem_plannedFields.mpr ⟨hshown, hdeclares⟩
    exact .inl (.own hplanned hget hbody)

/-- An aggregate that is asked for has its alias in the plan, and in its place there stands at most
one that is met below the root. -/
theorem AsksAtRoot.get?_planFor (h : s.AsksAtRoot r key a) (hnames : r.names.Nodup)
    (hp : (s.planFor r).eval = .ok p) :
    ∃ b, p.aggregates.get? key = some b ∧ (b = a ∨ s.NestsUnder r key b) := by
  obtain ⟨f, hf, hname, declared, hbody, rfl⟩ := h.declared
  have hget : r.get? key = some f := (ResourceSchema.get?_eq_some hnames).mpr ⟨hf, hname⟩
  obtain ⟨q, hq, rfl⟩ := eval_planFor_eq_ok.mp hp
  rw [LoadPlan.get?_withAggregates (distinctKeys_of_builtPlan hq).2
    (s.nodup_keys_loadAggregates r none)]
  rcases get?_aggregates_builtPlan hq key with ⟨b, hb, hmet⟩ | ⟨hnone, hunmet⟩
  · refine ⟨b, by rw [hb, Option.some_or], ?_⟩
    rcases hmet.declared_or_below with ⟨g, declared', hg, hbody', rfl⟩ | hbelow
    · obtain rfl := Option.some.inj (hget.symm.trans hg)
      obtain rfl := FieldBody.aggregate.inj (hbody.symm.trans hbody')
      exact .inl rfl
    · exact .inr hbelow
  · rcases h.computes_or_loaded hnames with hmet | hloaded
    · exact absurd hmet (hunmet _)
    · exact ⟨_, by rw [hnone, Option.none_or, hloaded], .inl rfl⟩

/-- Aggregates never keep a plan from being built: that is up to the loads. -/
theorem planFor_isOk_iff :
    let nested := (s.chosenNested r.type s.nestedRequests).sorted
    let names := plannedFields r (s.shownFields r (s.requestedFields r) [])
    (∃ p, (s.planFor r).eval = .ok p) ↔
      (∀ path l, s.Needs nested r names path l → pathDepth path ≤ s.settings.maxDepth) ∧
        ∀ path l k, s.Needs nested r names path l → s.Needs nested r names path k → l.Agree k := by
  intro nested names
  rw [← builtPlan_isOk_iff]
  constructor
  · rintro ⟨p, hp⟩
    obtain ⟨q, hq, -⟩ := eval_planFor_eq_ok.mp hp
    exact ⟨q, hq⟩
  · rintro ⟨q, hq⟩
    exact ⟨_, eval_planFor_eq_ok.mpr ⟨q, hq, rfl⟩⟩

/-- There is a plan for the current request unless its loads are too deep or differ. Whatever the
request asks for at the root is in the plan under its alias, as the resource declares it. Only an
aggregate that is met below the root can stand in its place; its key has a dot in it, as long as
the relations of the resource have names. -/
theorem planFor_keeps_root_aggregates (hnames : r.names.Nodup) :
    let nested := (s.chosenNested r.type s.nestedRequests).sorted
    let names := plannedFields r (s.shownFields r (s.requestedFields r) [])
    ((∃ p, (s.planFor r).eval = .ok p) ↔
      (∀ path l, s.Needs nested r names path l → pathDepth path ≤ s.settings.maxDepth) ∧
        ∀ path l k, s.Needs nested r names path l → s.Needs nested r names path k → l.Agree k) ∧
    ∀ p, (s.planFor r).eval = .ok p → ∀ key a, s.AsksAtRoot r key a →
      (∃ f ∈ r.fields, f.name = key ∧ ∃ declared, f.body = .aggregate declared ∧
        a = declared.load "") ∧
      (∃ b, p.aggregates.get? key = some b ∧ (b = a ∨ s.NestsUnder r key b)) ∧
      ((∀ b, ¬ s.NestsUnder r key b) →
        p.aggregates.get? key = some a ∧ (key, a) ∈ p.atRoot) ∧
      ((∀ f ∈ r.fields, ∀ rel ∈ f.relation?, rel.source ≠ "") → '.' ∉ key.toList →
        p.aggregates.get? key = some a ∧ (key, a) ∈ p.atRoot) := by
  intro nested names
  refine ⟨planFor_isOk_iff, ?_⟩
  intro p hp key a h
  obtain ⟨b, hb, hplace⟩ := h.get?_planFor hnames hp
  have hpath : a.path = "" := by
    obtain ⟨f, -, -, declared, -, rfl⟩ := h.declared
    rfl
  have hkept (hfree : ∀ b, ¬ s.NestsUnder r key b) :
      p.aggregates.get? key = some a ∧ (key, a) ∈ p.atRoot := by
    obtain rfl := hplace.resolve_right (hfree b)
    exact ⟨hb, List.mem_filter.mpr ⟨Entries.mem_of_get? hb, by simp [hpath]⟩⟩
  refine ⟨h.declared, ⟨b, hb, hplace⟩, hkept, ?_⟩
  intro hsource hdot
  exact hkept fun b hbelow => hdot (hbelow.dot_mem hsource)

end Request

end Service

namespace Bylines

attribute [local instance] Room.usual

def byline : RelationField := ⟨"author", some "user", none, some ["postsCount"], none, false⟩

def user : ResourceSchema where
  type := "user"
  fields := [⟨"id", .scalar "id", []⟩,
    ⟨"postsCount", .aggregate ⟨.count, "posts", none, false, none⟩, []⟩]
  defaults := ["id"]
  fixed := []
  model := none

/-- One of the aliases is the key under which the posts of the author are counted. -/
def post : ResourceSchema where
  type := "post"
  fields := [⟨"author", .relation byline, []⟩,
    ⟨"author.postsCount", .aggregate ⟨.count, "comments", none, true, none⟩, []⟩,
    ⟨"likesCount", .aggregate ⟨.count, "likes", none, true, none⟩, []⟩]
  defaults := ["author"]
  fixed := []
  model := none

def service : Service where
  catalog := ⟨⟨[user, post], [], [], true⟩, rfl, rfl⟩
  settings := default
  query := none

def relations : Entries RelationLoad := [("author", { resource := some "user" })]

def nestedCount : Entries AggregateLoad :=
  [("author.postsCount", ⟨"posts", .count, none, none, "author"⟩)]

def counts : Entries AggregateLoad :=
  [("author.postsCount", ⟨"comments", .count, none, none, ""⟩),
    ("likesCount", ⟨"likes", .count, none, none, ""⟩)]

def plan : LoadPlan where
  relations := relations
  aggregates := nestedCount ++ [("likesCount", ⟨"likes", .count, none, none, ""⟩)]

private theorem get?_author : post.get? "author" = some ⟨"author", .relation byline, []⟩ := rfl

private theorem get?_postsCount : user.get? "postsCount" =
    some ⟨"postsCount", .aggregate ⟨.count, "posts", none, false, none⟩, []⟩ := rfl

theorem loads_post : service.loadAggregates post none = counts :=
  List.mergeSort_of_pairwise (by decide)

theorem builtPlan_post (nested : Selection) :
    service.builtPlan nested post ["author"] = .ok ⟨relations, nestedCount⟩ := by
  have hcollect : service.catalog.collect (service.childFields nested) ["post"] post ""
      ["author"] = [.load "author" { resource := some "user" },
        .aggregate "author.postsCount" ⟨"posts", .count, none, none, "author"⟩] := by
    have hbyline : service.catalog.contributions ["post"] "" ⟨"author", .relation byline, []⟩ =
        [.load "author" { resource := some "user" }] := by decide
    have hcount : service.catalog.contributions ["user", "post"] "author"
        ⟨"postsCount", .aggregate ⟨.count, "posts", none, false, none⟩, []⟩ =
          [.aggregate "author.postsCount" ⟨"posts", .count, none, none, "author"⟩] := by decide
    have hchild : service.catalog.child? ["post"] ⟨"author", .relation byline, []⟩ =
        some ⟨user, by decide, by decide⟩ := rfl
    have hend : service.catalog.child? ["user", "post"]
        ⟨"postsCount", .aggregate ⟨.count, "posts", none, false, none⟩, []⟩ = none := rfl
    have hpath : joinPath "" ((⟨"author", .relation byline, []⟩ : Field).source?.getD "") =
        "author" := rfl
    have hbelow : service.childFields nested ⟨"author", .relation byline, []⟩ "user" =
        ["postsCount"] := rfl
    have htype : user.type = "user" := rfl
    simp only [Catalog.collect, get?_author, get?_postsCount, hbyline, hcount, hchild, hend, hpath,
      hbelow, htype, List.append_nil, List.cons_append, List.nil_append]
  have hadd : LoadPlan.empty.addAll service.settings.maxDepth
      [.load "author" { resource := some "user" },
        .aggregate "author.postsCount" ⟨"posts", .count, none, none, "author"⟩] =
      .ok ⟨relations, nestedCount⟩ := by
    decide
  rw [Service.builtPlan, show [post.type] = ["post"] from rfl, hcollect, hadd]
  exact congrArg Except.ok (congrArg₂ LoadPlan.mk (List.mergeSort_singleton _)
    (List.mergeSort_singleton _))

theorem planFor_post : (service.planFor post).eval = .ok plan := by
  have hshown : service.shownFields post (service.requestedFields post) [] =
      ["author", "id"] := by
    rw [Service.shownFields, post.knownExclusions_nil]
    decide
  have hplanned : Service.plannedFields post ["author", "id"] = ["author"] := by
    have hdeclared : (unique ["author", "id"]).filter post.declares = ["author"] := by decide
    rw [Service.plannedFields, hdeclared]
    exact List.mergeSort_singleton _
  have hmerged : LoadPlan.withAggregates ⟨relations, nestedCount⟩ counts = plan :=
    congrArg (LoadPlan.mk relations) (List.mergeSort_of_pairwise (by decide))
  rw [Service.eval_planFor_eq_ok, hshown, hplanned, loads_post]
  exact ⟨_, builtPlan_post _, hmerged.symm⟩

/-- The likes of a post are counted: no dot is in their alias. -/
theorem likes_kept :
    post.names.Nodup ∧ (service.planFor post).eval = .ok plan ∧
    service.AsksAtRoot post "likesCount" ⟨"likes", .count, none, none, ""⟩ ∧
    plan.aggregates.get? "likesCount" = some ⟨"likes", .count, none, none, ""⟩ ∧
    ("likesCount", ⟨"likes", .count, none, none, ""⟩) ∈ plan.atRoot := by
  have hnames : post.names.Nodup := by decide
  have hasks : service.AsksAtRoot post "likesCount" ⟨"likes", .count, none, none, ""⟩ :=
    .loaded (by rw [loads_post]; decide)
  have hsource : ∀ f ∈ post.fields, ∀ rel ∈ f.relation?, rel.source ≠ "" := by decide
  obtain ⟨-, hplan⟩ := Service.planFor_keeps_root_aggregates (s := service) hnames
  obtain ⟨-, -, -, hkept⟩ := hplan plan planFor_post _ _ hasks
  exact ⟨hnames, planFor_post, hasks, hkept hsource (by decide)⟩

/-- The comments of a post are not counted: in their place stands the count of the posts of its
author. -/
theorem comments_replaced :
    service.catalog.schemaOf (.named "post") = .ok post ∧ post.names.Nodup ∧
    ¬ ∀ p, (service.planFor post).eval = .ok p → ∀ key a, service.AsksAtRoot post key a →
      p.aggregates.get? key = some a ∧ (key, a) ∈ p.atRoot := by
  refine ⟨rfl, by decide, fun h => ?_⟩
  have hasks : service.AsksAtRoot post "author.postsCount"
      ⟨"comments", .count, none, none, ""⟩ := .loaded (by rw [loads_post]; decide)
  have hkept := (h plan planFor_post _ _ hasks).1
  have hplaced : plan.aggregates.get? "author.postsCount" =
      some ⟨"posts", .count, none, none, "author"⟩ := rfl
  rw [hplaced] at hkept
  revert hkept
  decide

end Bylines
end FieldPlan
