import FieldPlan.Proofs.Model.Remembered
import FieldPlan.Proofs.Model.Support
import FieldPlan.Proofs.Plan.Aggregates
import FieldPlan.Proofs.Registry.Lifecycle
import FieldPlan.Proofs.Service.Rules
import FieldPlan.Proofs.Service.Serialization
/-!
# Plans of a service, applied to models

Where the models bear out what the resources declare, every plan of the service can be applied to
the model of its resource. The walk over resource types and the way through the models keep in step:
the path at which a resource is met leads from the root's model to the model of that resource.
-/
namespace FieldPlan

open Cache

def Mapping.modelOf? (mapping : Mapping) (r : ResourceSchema) : Option Model :=
  r.model.bind mapping.model?

/-- A constraint can be put on a model, if the constraint is registered. -/
def Registry.Allows (reg : Registry) (name : Option String) (target : Model) : Prop :=
  ∀ n k, given name = some n → reg.constraint n = .ok k → ∃ holds, k target = .ok holds

/-- What the fields of a resource need of its model is there. -/
structure Catalog.Fits (c : Catalog) (mapping : Mapping) (r : ResourceSchema) (m : Model) :
    Prop where
  column : ∀ f ∈ r.fields, ∀ n, f.column? = some n → n ∈ m.columnNames
  extra : ∀ f ∈ r.fields, ∀ extra ∈ f.extras,
    ∃ target, mapping.follow? m (Text.split '.' extra) = some target
  /-- a relation leads to the model of its target, which has the column of its accessor -/
  relation : ∀ f ∈ r.fields, ∀ rel, f.body = .relation rel →
    ∃ relationship target, mapping.Leads m rel.source relationship target ∧
      (∀ t s, rel.target = some t → c.find? t = some s → mapping.modelOf? s = some target) ∧
      (∀ accessor, rel.accessor = some accessor →
        c.accessorColumn rel accessor ∈ target.columnNames) ∧
      c.registry.Allows rel.constraint target
  aggregate : ∀ f ∈ r.fields, ∀ a, f.body = .aggregate a →
    ∃ relationship target, mapping.Leads m a.source relationship target ∧
      (∃ column, target.Offers a.kind a.column column) ∧ c.registry.Allows a.constraint target

/-- Every resource shows a model that has what its fields need. -/
def Catalog.BorneOutBy (c : Catalog) (mapping : Mapping) : Prop :=
  ∀ type r, c.find? type = some r → ∃ m, mapping.modelOf? r = some m ∧ c.Fits mapping r m

namespace Mapping

variable {mapping : Mapping} {m target : Model}

theorem mem_models_of_modelOf? {r : ResourceSchema} (h : mapping.modelOf? r = some m) :
    m ∈ mapping.models := by
  obtain ⟨name, -, hm⟩ := Option.bind_eq_some_iff.mp h
  exact List.mem_of_find?_eq_some hm

theorem follow?_joinPath {root : Model} {path below : String}
    (hpath : mapping.follow? root (segments path) = some m) (hne : below ≠ "") :
    mapping.follow? root (segments (joinPath path below)) =
      mapping.follow? m (Text.split '.' below) := by
  rw [segments_joinPath path hne, follow?_append, hpath, Option.bind_some]

end Mapping

theorem Registry.exists_constraint {reg : Registry} {name : String}
    (h : name ∈ reg.constraints.map (·.1)) : ∃ k, reg.constraint name = .ok k := by
  unfold Registry.constraint
  cases hlookup : reg.constraints.lookup name with
  | some k => exact ⟨k, rfl⟩
  | none =>
    have hnone : Entries.get? reg.constraints name = none := hlookup
    exact absurd h (Entries.get?_eq_none.mp hnone)

theorem Catalog.exists_restricts {c : Catalog} {type : String} {r : ResourceSchema}
    (hr : c.find? type = some r) {f : Field} (hf : f ∈ r.fields) {target : Model}
    (h : c.registry.Allows f.constraint? target) :
    ∃ k, c.registry.Restricts f.constraint? target k := by
  unfold Registry.Restricts
  cases hgiven : given f.constraint? with
  | none => exact ⟨none, rfl⟩
  | some n =>
    obtain ⟨hname, hne⟩ := Option.filter_eq_some_iff.mp hgiven
    have hsound := Registry.faults_eq_nil_iff.mp c.faults_eq_nil
    obtain ⟨k, hk⟩ := Registry.exists_constraint
      (hsound.constraint r (List.mem_of_find?_eq_some hr) f hf n hname (by simpa using hne))
    obtain ⟨holds, hholds⟩ := h n k hgiven hk
    exact ⟨some holds, holds, ⟨k, hk, hholds⟩, rfl⟩

namespace Service

variable {s : Service} {nested : Selection} {mapping : Mapping}

/-- At the end of its path a load finds its columns and may be restricted. -/
structure Finds (s : Service) (mapping : Mapping) (root : Model) (path : String)
    (load : RelationLoad) (target : Model) : Prop where
  leads : mapping.follow? root (segments path) = some target
  ne_empty : path ≠ ""
  columns : ∀ n ∈ load.columns.getD [], n ∈ target.columnNames
  condition : ∃ c, s.catalog.registry.Restricts load.constraint target c

theorem mem_columnNames_of_mem_defaultColumns (hborne : s.catalog.BorneOutBy mapping)
    {type n : String} (h : n ∈ s.catalog.defaultColumns type) {r : ResourceSchema} {m : Model}
    (hr : s.catalog.find? type = some r) (hm : mapping.modelOf? r = some m) :
    n ∈ m.columnNames := by
  unfold Catalog.defaultColumns at h
  rw [hr, mem_unique] at h
  obtain ⟨name, -, hcolumn⟩ := List.mem_filterMap.mp h
  obtain ⟨f, hget, hcolumn⟩ := Option.bind_eq_some_iff.mp hcolumn
  obtain ⟨m', hm', hfits⟩ := hborne type r hr
  obtain rfl := Option.some.inj (hm.symm.trans hm')
  exact hfits.column f (List.mem_of_find?_eq_some hget) n hcolumn

/-- A resource is met at a path that leads to its model. -/
structure MetAt (s : Service) (mapping : Mapping) (root : Model) (path : String)
    (r : ResourceSchema) (m : Model) : Prop where
  registered : s.catalog.find? r.type = some r
  model : mapping.modelOf? r = some m
  leads : mapping.follow? root (segments path) = some m

variable {root m : Model} {path : String} {r : ResourceSchema}

theorem MetAt.fits (h : s.MetAt mapping root path r m) (hborne : s.catalog.BorneOutBy mapping) :
    s.catalog.Fits mapping r m := by
  obtain ⟨m', hm', hfits⟩ := hborne _ r h.registered
  exact Option.some.inj (h.model.symm.trans hm') ▸ hfits

theorem MetAt.finds_extra (h : s.MetAt mapping root path r m)
    (hborne : s.catalog.BorneOutBy mapping) (hplain : mapping.PlainNames) {f : Field}
    (hf : f ∈ r.fields) {extra : String} (hextra : extra ∈ f.extras) :
    ∃ target, s.Finds mapping root (joinPath path extra) {} target := by
  obtain ⟨target, htarget⟩ := (h.fits hborne).extra f hf extra hextra
  have hne := hplain.ne_empty (Mapping.mem_models_of_modelOf? h.model) htarget
  exact ⟨target, (Mapping.follow?_joinPath h.leads hne).trans htarget, joinPath_ne_empty hne,
    fun n hn => (nomatch hn), none, rfl⟩

theorem MetAt.finds_relation (h : s.MetAt mapping root path r m)
    (hborne : s.catalog.BorneOutBy mapping) (hplain : mapping.PlainNames) {f : Field}
    (hf : f ∈ r.fields) {rel : RelationField} (hbody : f.body = .relation rel) :
    ∃ target, s.Finds mapping root (joinPath path rel.source)
        { constraint := rel.constraint } target ∧
      (∀ t child, rel.target = some t → s.catalog.find? t = some child →
        s.MetAt mapping root (joinPath path rel.source) child target) ∧
      ∀ accessor, rel.accessor = some accessor →
        s.catalog.accessorColumn rel accessor ∈ target.columnNames := by
  obtain ⟨relationship, target, hleads, hchild, haccessor, hallows⟩ :=
    (h.fits hborne).relation f hf rel hbody
  obtain ⟨hne, hdot⟩ := hplain.of_leads (Mapping.mem_models_of_modelOf? h.model) hleads
  have hpath : mapping.follow? root (segments (joinPath path rel.source)) = some target := by
    rw [Mapping.follow?_joinPath h.leads hne, Text.split_of_notMem hdot, hleads.follow?]
  have hconstraint : f.constraint? = rel.constraint := by rw [Field.constraint?, hbody]
  obtain ⟨c, hc⟩ := Catalog.exists_restricts h.registered hf (hconstraint ▸ hallows)
  refine ⟨target, ⟨hpath, joinPath_ne_empty hne, fun n hn => (nomatch hn), c, hconstraint ▸ hc⟩,
    fun t child ht hfind => ?_, haccessor⟩
  exact ⟨(Catalog.type_of_find? hfind).symm ▸ hfind, hchild t child ht hfind, hpath⟩

/-- Whatever the rules contribute below a resource finds what it needs: by induction on the rules,
with the path where a resource is met leading to its model. -/
theorem Contributes.finds (hborne : s.catalog.BorneOutBy mapping) (hplain : mapping.PlainNames)
    {ancestors names : List String} {place : String} {load : RelationLoad}
    (h : s.Contributes nested ancestors r path names place load)
    (hmet : s.MetAt mapping root path r m) :
    ∃ target, s.Finds mapping root place load target := by
  induction h generalizing m with
  | extra _ hfield hextra =>
    exact hmet.finds_extra hborne hplain (List.mem_of_find?_eq_some hfield) hextra
  | accessor _ hfield hbody haccessor =>
    obtain ⟨target, hfinds, -, hcolumn⟩ :=
      hmet.finds_relation hborne hplain (List.mem_of_find?_eq_some hfield) hbody
    refine ⟨target, hfinds.leads, hfinds.ne_empty, fun n hn => ?_, hfinds.condition⟩
    rw [List.mem_singleton.mp hn]
    exact hcolumn _ haccessor
  | untargeted _ hfield hbody _ _ =>
    obtain ⟨target, hfinds, -, -⟩ :=
      hmet.finds_relation hborne hplain (List.mem_of_find?_eq_some hfield) hbody
    exact ⟨target, hfinds.leads, hfinds.ne_empty, hfinds.columns, hfinds.condition⟩
  | @cyclic _ r _ _ _ f rel type _ hfield hbody _ htarget _ =>
    obtain ⟨target, hfinds, hchild, -⟩ :=
      hmet.finds_relation hborne hplain (List.mem_of_find?_eq_some hfield) hbody
    refine ⟨target, hfinds.leads, hfinds.ne_empty, fun n hn => ?_, hfinds.condition⟩
    obtain ⟨child, hfind⟩ := Catalog.exists_of_mem_types (Catalog.target_mem_types hmet.registered
      (List.mem_of_find?_eq_some hfield) hbody htarget)
    exact mem_columnNames_of_mem_defaultColumns hborne hn hfind
      (hchild type child htarget hfind).model
  | full _ hfield hbody _ _ _ =>
    obtain ⟨target, hfinds, -, -⟩ :=
      hmet.finds_relation hborne hplain (List.mem_of_find?_eq_some hfield) hbody
    exact ⟨target, hfinds.leads, hfinds.ne_empty, hfinds.columns, hfinds.condition⟩
  | deeper _ hfield hbody _ htarget _ hfind _ ih =>
    obtain ⟨target, -, hchild, -⟩ :=
      hmet.finds_relation hborne hplain (List.mem_of_find?_eq_some hfield) hbody
    exact ih (hchild _ _ htarget hfind)

theorem finds_of_sums {load : RelationLoad} {P : RelationLoad → Prop} (hsums : load.Sums P)
    (h : ∀ k, P k → ∃ target, s.Finds mapping root path k target) :
    ∃ target, s.Finds mapping root path load target := by
  obtain ⟨k, hk, hconstraint⟩ := hsums.constraint_mem
  obtain ⟨target, hfinds⟩ := h k hk
  refine ⟨target, hfinds.leads, hfinds.ne_empty, fun n hn => ?_, hconstraint ▸ hfinds.condition⟩
  cases hcolumns : load.columns with
  | none => rw [hcolumns] at hn; cases hn
  | some cs =>
    rw [hcolumns] at hn
    obtain ⟨k', ds, hk', hds, hn⟩ := (hsums.columns cs hcolumns n).mp hn
    obtain ⟨target', hfinds'⟩ := h k' hk'
    obtain rfl := Option.some.inj (hfinds.leads.symm.trans hfinds'.leads)
    exact hfinds'.columns n (by rw [hds]; exact hn)

theorem roots_of_builtPlan {names : List String} {p : LoadPlan}
    (hsource : ∀ type r, s.catalog.find? type = some r → ∀ f ∈ r.fields, ∀ rel,
      f.body = .relation rel → rel.source ≠ "")
    (hr : s.catalog.find? r.type = some r) (hp : s.builtPlan nested r names = .ok p)
    {e : String × AggregateLoad} (he : e ∈ p.aggregates) (hroot : e.2.path = "") :
    r.Roots e.2 := by
  have hcollected := contributed_of_mem_aggregates hp he
  exact (Catalog.roots_of_mem_collect hsource hr hcollected hroot).2

/-- The model of a resource supports every plan that the service has for the resource. -/
theorem supports_planFor [Room] {l : Loader} (hregistry : l.registry = s.catalog.registry)
    (hborne : s.catalog.BorneOutBy l.mapping) (hplain : l.mapping.PlainNames)
    (hr : s.catalog.find? r.type = some r) (hm : l.mapping.modelOf? r = some m) {p : LoadPlan}
    (hp : (s.planFor r).eval = .ok p) : l.Supports m p := by
  have hmet : s.MetAt l.mapping m "" r m := ⟨hr, hm, rfl⟩
  obtain ⟨built, hbuilt, rfl⟩ := eval_planFor_eq_ok.mp hp
  refine ⟨fun path load hload => ?_, fun e he => ?_⟩
  · have hsums := (builtPlan_relations hbuilt).2.2 path load hload
    obtain ⟨target, hfinds⟩ := finds_of_sums hsums fun k hk => hk.finds hborne hplain hmet
    refine ⟨target, ?_, hfinds.columns, hregistry ▸ hfinds.condition⟩
    have hleads := hfinds.leads
    rwa [segments, if_neg hfinds.ne_empty] at hleads
  · obtain ⟨hmem, hroot⟩ := List.mem_filter.mp he
    have hsource : ∀ type r, s.catalog.find? type = some r → ∀ f ∈ r.fields, ∀ rel,
        f.body = .relation rel → rel.source ≠ "" := by
      intro type r' hr' f hf rel hbody
      obtain ⟨m', hm', hfits⟩ := hborne type r' hr'
      obtain ⟨_, _, hleads, -⟩ := hfits.relation f hf rel hbody
      exact (hplain.of_leads (Mapping.mem_models_of_modelOf? hm') hleads).1
    have hroots : r.Roots e.2 := by
      rcases LoadPlan.mem_withAggregates hmem with h | h
      · exact roots_of_builtPlan hsource hr hbuilt h (by simpa using hroot)
      · obtain ⟨f, hf, -, hdeclared⟩ := mem_loadAggregates h
        exact ⟨f, hf, hdeclared⟩
    obtain ⟨f, hf, declared, hbody, hload⟩ := hroots
    obtain ⟨relationship, target, hleads, ⟨column, hcolumn⟩, hallows⟩ :=
      (hmet.fits hborne).aggregate f hf declared hbody
    have hconstraint : f.constraint? = declared.constraint := by rw [Field.constraint?, hbody]
    obtain ⟨c, hc⟩ := Catalog.exists_restricts hr hf (hconstraint ▸ hallows)
    rw [hconstraint, ← hregistry] at hc
    refine ⟨⟨e.1, declared.kind, relationship, target, column, c⟩, rfl, ?_, ?_, ?_, ?_⟩
    all_goals rw [hload]
    · rfl
    · exact hleads
    · exact hcolumn
    · exact hc

/-- A plan of the service can be applied to the model of its resource: its paths lead along
relationships to models that have its columns and allow its constraints, and its aggregates at the
root can be taken. So it is whatever a faithful store holds of the models. -/
theorem apply_planFor [Room] {l : Loader} (hregistry : l.registry = s.catalog.registry)
    (hregular : l.mapping.Regular) (hborne : s.catalog.BorneOutBy l.mapping) {ref : ResourceRef}
    (hr : s.catalog.schemaOf ref = .ok r) (hm : l.mapping.modelOf? r = some m) {p : LoadPlan}
    (hp : (s.planFor r).eval = .ok p) :
    (l.legend.Lossless ∧ l.Knows l.legend) ∧
    ∃ options aggregates,
      List.Forall₂ (l.IsOption p m) p.relations options ∧
      List.Forall₂ (l.IsAggregate m) p.atRoot aggregates ∧
      let st : Statement := { Statement.ofModel m with options, aggregates }
      (l.apply m p).eval = .ok st ∧
      ∀ L : Legend ServiceError Metadata, L.Lossless → l.Knows L →
        ∀ store : Store SharedStore Metadata, store.Faithful L →
          ((l.apply m p).run store).1 = .ok st ∧ ((l.apply m p).run store).2.Faithful L := by
  refine ⟨⟨Loader.legend_lossless hregular, Loader.knows_legend hregular⟩, ?_⟩
  have hsupports := supports_planFor hregistry hborne hregular.relationships
    (Catalog.find?_of_schemaOf hr) hm hp
  obtain ⟨st, hst⟩ := hsupports.exists_apply
  obtain ⟨options, aggregates, hoptions, haggregates, rfl⟩ := Loader.eval_apply.mp hst
  refine ⟨options, aggregates, hoptions, haggregates, hst, ?_⟩
  intro L hlossless hknows store hstore
  obtain ⟨name, -, hmodel⟩ := Option.bind_eq_some_iff.mp hm
  have hfollows := Loader.follows_apply hknows (Loader.maps_of_model? hmodel) p
  rw [← hst]
  exact Task.run_eq_eval hlossless _ hfollows store hstore

end Service

namespace Articles

attribute [local instance] Room.usual

def article : ResourceSchema where
  type := "article"
  fields := [⟨"id", .scalar "id", []⟩,
    ⟨"authorName", .relation ⟨"author", none, some "name", none, none, false⟩, []⟩,
    ⟨"commentsCount", .aggregate ⟨.count, "comments", none, true, none⟩, []⟩]
  defaults := ["authorName"]
  fixed := []
  model := some "Article"

def service : Service where
  catalog := ⟨⟨[article], [], [], true⟩, rfl, rfl⟩
  settings := default
  query := none

def id : Column := ⟨"id", "id", .integer, true⟩

def user : Model := ⟨"User", "users", [id, ⟨"name", "name", .string, false⟩], []⟩

def comment : Model where
  name := "Comment"
  table := "comments"
  columns := [id, ⟨"article_id", "article_id", .integer, false⟩]
  relationships := []

def author : Relationship := ⟨"author", "User", .direct (.onColumns "user_id" "id")⟩

def comments : Relationship := ⟨"comments", "Comment", .direct (.onColumns "id" "article_id")⟩

def articleModel : Model where
  name := "Article"
  table := "articles"
  columns := [id, ⟨"user_id", "user_id", .integer, false⟩]
  relationships := [author, comments]

def loader : Loader where
  registry := service.catalog.registry
  mapping := ⟨[articleModel, user, comment]⟩
  keyPrefix := "resourcekit"

theorem regular : loader.mapping.Regular :=
  ⟨by decide, by decide, by unfold Mapping.PlainNames; decide⟩

private theorem of_mem_fields : ∀ f ∈ article.fields,
    f.extras = [] ∧ (f.body = .scalar "id" ∨
      f.body = .relation ⟨"author", none, some "name", none, none, false⟩ ∨
      f.body = .aggregate ⟨.count, "comments", none, true, none⟩) := by
  decide

private theorem eq_article_of_find? {type : String} {r : ResourceSchema}
    (h : service.catalog.find? type = some r) : r = article := by
  unfold Catalog.find? Registry.find? at h
  exact List.mem_singleton.mp (List.mem_of_find?_eq_some h)

theorem borneOut : service.catalog.BorneOutBy loader.mapping := by
  intro type r hr
  obtain rfl := eq_article_of_find? hr
  refine ⟨articleModel, rfl, by decide, ?_, ?_, ?_⟩
  · intro f hf extra hextra
    rw [(of_mem_fields f hf).1] at hextra
    cases hextra
  · intro f hf rel hbody
    rcases (of_mem_fields f hf).2 with h | h | h
    all_goals rw [h] at hbody; cases hbody
    exact ⟨author, user, ⟨rfl, rfl⟩, nofun, by decide, nofun⟩
  · intro f hf a hbody
    rcases (of_mem_fields f hf).2 with h | h | h
    all_goals rw [h] at hbody; cases hbody
    exact ⟨comments, comment, ⟨rfl, rfl⟩, ⟨none, rfl⟩, nofun⟩

def plan : LoadPlan where
  relations := [("author", { columns := some ["name"] })]
  aggregates := [("commentsCount", ⟨"comments", .count, none, none, ""⟩)]

theorem planFor_article : (service.planFor article).eval = .ok plan := by
  have hshown : service.shownFields article (service.requestedFields article) [] =
      ["authorName", "id"] := by
    rw [Service.shownFields, article.knownExclusions_nil]
    decide
  have hplanned : Service.plannedFields article ["authorName", "id"] = ["authorName", "id"] := by
    have hdeclared : (unique ["authorName", "id"]).filter article.declares =
        ["authorName", "id"] := by decide
    rw [Service.plannedFields, hdeclared]
    simp [sortNames, List.mergeSort, List.MergeSort.Internal.splitInTwo]
  have hcollect (children : Field → String → List String) :
      service.catalog.collect children ["article"] article "" ["authorName", "id"] =
        [.load "author" { columns := some ["name"] }] := by
    have hname : service.catalog.accessorColumn
        ⟨"author", none, some "name", none, none, false⟩ "name" = "name" := rfl
    simp [Catalog.collect, ResourceSchema.get?, article, Catalog.contributions, Catalog.child?,
      Field.embedded?, Field.relation?, Catalog.relationLoad, joinPath, hname]
  have hadd : LoadPlan.empty.addAll service.settings.maxDepth
      [.load "author" { columns := some ["name"] }] = .ok { plan with aggregates := [] } := by
    decide
  have hone {α : Type} (e : String × α) : Entries.sorted [e] = [e] := List.mergeSort_singleton e
  have hcounts : service.loadAggregates article none = plan.aggregates := hone _
  rw [service.eval_planFor, hshown, hplanned, Service.builtPlan,
    show [article.type] = ["article"] from rfl, hcollect, hadd, hcounts]
  have hsorted : LoadPlan.sorted { plan with aggregates := [] } = { plan with aggregates := [] } :=
    congrArg₂ LoadPlan.mk (hone _) List.mergeSort_nil
  have hcounted : LoadPlan.withAggregates { plan with aggregates := [] } plan.aggregates = plan :=
    congrArg (LoadPlan.mk plan.relations) (hone _)
  show Except.ok ((LoadPlan.sorted { plan with aggregates := [] }).withAggregates
    plan.aggregates) = .ok plan
  rw [hsorted, hcounted]

/-- The plan for articles is applied, also by a store that is new. -/
theorem applied_to_articles :
    loader.registry = service.catalog.registry ∧ loader.mapping.Regular ∧
    service.catalog.BorneOutBy loader.mapping ∧
    service.catalog.schemaOf (.named "article") = .ok article ∧
    loader.mapping.modelOf? article = some articleModel ∧
    (service.planFor article).eval = .ok plan ∧
    (service.newStore none).Faithful loader.legend ∧
    (loader.legend.Lossless ∧ loader.Knows loader.legend) ∧
    ∃ options aggregates,
      List.Forall₂ (loader.IsOption plan articleModel) plan.relations options ∧
      List.Forall₂ (loader.IsAggregate articleModel) plan.atRoot aggregates ∧
      let st : Statement := { Statement.ofModel articleModel with options, aggregates }
      (loader.apply articleModel plan).eval = .ok st ∧
      ∀ L : Legend ServiceError Metadata, L.Lossless → loader.Knows L →
        ∀ store : Store SharedStore Metadata, store.Faithful L →
          ((loader.apply articleModel plan).run store).1 = .ok st ∧
            ((loader.apply articleModel plan).run store).2.Faithful L :=
  have hnone : ∀ b, (none : Option SharedStore) = some b → b.texts = [] := by simp
  have hregistry : loader.registry = service.catalog.registry := rfl
  have hschema : service.catalog.schemaOf (.named "article") = .ok article := rfl
  have happlied := Service.apply_planFor hregistry regular borneOut hschema rfl planFor_article
  ⟨rfl, regular, borneOut, rfl, rfl, planFor_article, Fleet.start_faithful service _ hnone 0,
    happlied⟩

end Articles
end FieldPlan
