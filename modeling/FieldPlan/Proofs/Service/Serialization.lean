import FieldPlan.Proofs.Plan.Merging
import FieldPlan.Proofs.Query
import FieldPlan.Proofs.Service.Evaluation
/-!
# Plans and what is shown

A serializer shows of each resource the fields resolved for its type. The plan for a request loads
exactly what these fields need, although it is built from the requests that matter alone.
-/
namespace FieldPlan

open Cache

namespace RelationLoad

/-- Two loads that differ at most in the order of their columns, and in whether an absent constraint
is spelled as an empty one. -/
structure Alike (l k : RelationLoad) : Prop where
  resource : l.resource = k.resource
  columns : l.columns = none ∧ k.columns = none ∨
    ∃ cs ds, l.columns = some cs ∧ k.columns = some ds ∧ ∀ n, n ∈ cs ↔ n ∈ ds
  constraint : given l.constraint = given k.constraint
  many : l.many = k.many
  cyclic : l.cyclic = k.cyclic

theorem Sums.alike {l k : RelationLoad} {P : RelationLoad → Prop} (hl : l.Sums P) (hk : k.Sums P)
    (hnamed : ∀ j, P j → j.resource ≠ some "") : l.Alike k where
  resource := by
    rw [← hl.given_resource hnamed, ← hk.given_resource hnamed]
    exact (hl.matches hk).resource
  columns := (hl.matches hk).columns
  constraint := (hl.matches hk).constraint
  many := (hl.matches hk).many
  cyclic := (hl.matches hk).cyclic

end RelationLoad

/-- Two plans with the same paths and the same loads at them. -/
structure LoadPlan.SameRelations (p q : LoadPlan) : Prop where
  paths : p.relations.keys = q.relations.keys
  loads : ∀ path l k, (path, l) ∈ p.relations → (path, k) ∈ q.relations → l.Alike k

namespace Service

def shownOf [Room] (s : Service) (type : String) : Work (List String) :=
  .bind (Work.ofResource (s.catalog.schema type)) fun r => s.resolveFields r []

/-- The walk that follows at each embedded type the fields that are shown of it. -/
def directWalk [Room] (s : Service) : Walk where
  catalog := s.catalog
  maxDepth := s.settings.maxDepth
  nested := []
  defaults := s.shownOf

/-- The plan of the fields that are shown of a resource and of all that it embeds. -/
def directPlan [Room] (s : Service) (r : ResourceSchema) : Work LoadPlan :=
  .bind (s.resolveFields r []) fun fields => s.directWalk.build r fields

/-- What is shown of a type, as far as it is registered. -/
def requestedOf (s : Service) (type : String) : List String :=
  (s.catalog.find? type).elim [] fun r => s.shownFields r (s.requestedFields r) []

/-- The fields that the direct walk follows below a relation. -/
def directFields (s : Service) (f : Field) (type : String) : List String :=
  (f.relation?.bind (·.pinned)).getD (s.requestedOf type)

variable {s : Service}

theorem eval_resolveFields [Room] (r : ResourceSchema) :
    (s.resolveFields r []).eval = .ok (s.shownFields r (s.requestedFields r) []) :=
  eval_resolve r _ []

theorem directWalk_follows [Room] : s.directWalk.Follows s.directFields := by
  intro f type htype
  obtain ⟨r, hr⟩ := Catalog.exists_of_mem_types htype
  unfold Walk.childFields directFields
  cases f.relation?.bind (·.pinned) with
  | some names => rfl
  | none =>
    change (s.shownOf type).eval = _
    have hschema : s.catalog.schema type = .ok r := Catalog.schema_of_find? hr
    have hr : s.catalog.find? type = some r := hr
    rw [shownOf, Task.eval_bind, Work.eval_ofResource, hschema]
    simp only [mapError_ok, eval_resolveFields, requestedOf, hr, Option.elim_some, Option.getD_none]

theorem eval_directPlan [Room] (r : ResourceSchema) : (s.directPlan r).eval =
    ((LoadPlan.empty.addAll s.settings.maxDepth (s.catalog.collect s.directFields [r.type] r ""
      (s.shownFields r (s.requestedFields r) []))).map LoadPlan.sorted).mapError
        fun e => .raised (.plan e) := by
  rw [directPlan, Task.eval_bind, eval_resolveFields]
  exact Walk.eval_build directWalk_follows r _

private theorem chosenNested_cons (root : String) (e : String × Option (List String))
    (rest : Entries (Option (List String))) : s.chosenNested root (e :: rest) =
      (if e.1 ∈ s.catalog.reachable root then
        (s.childChoice e.1 e.2).map fun names => (e.1, names) else none).toList ++
          s.chosenNested root rest := by
  unfold chosenNested
  rw [List.filterMap_cons]
  dsimp only
  cases (if e.1 ∈ s.catalog.reachable root then
    (s.childChoice e.1 e.2).map fun names => (e.1, names) else none) <;> rfl

theorem get?_chosenNested {root type : String} (hreach : type ∈ s.catalog.reachable root)
    {requests : Entries (Option (List String))} (hkeys : requests.keys.Nodup) :
    (s.chosenNested root requests).get? type =
      (requests.get? type).bind fun requested => s.childChoice type requested := by
  induction requests with
  | nil => rfl
  | cons e rest ih =>
    obtain ⟨t, requested⟩ := e
    simp only [Entries.keys, List.map_cons, List.nodup_cons] at hkeys
    rw [chosenNested_cons, Entries.get?_append, Entries.get?_cons, ih hkeys.2]
    by_cases ht : type = t
    · subst ht
      have hnone : Entries.get? rest type = none := Entries.get?_eq_none.mpr hkeys.1
      rw [if_pos hreach, if_pos rfl, hnone]
      cases hchoice : s.childChoice type requested <;> simp [Entries.get?_cons, hchoice]
    · rw [if_neg ht]
      split
      · cases s.childChoice t requested <;> simp [Entries.get?_cons, ht]
      · rfl

theorem nodup_keys_chosenNested {root : String} {requests : Entries (Option (List String))}
    (hkeys : requests.keys.Nodup) : (s.chosenNested root requests).keys.Nodup := by
  have hsublist : (s.chosenNested root requests).keys.Sublist requests.keys := by
    clear hkeys
    induction requests with
    | nil => exact List.Sublist.slnil
    | cons e rest ih =>
      rw [chosenNested_cons]
      split
      · cases s.childChoice e.1 e.2 with
        | none => exact ih.cons e.1
        | some names => exact ih.cons_cons e.1
      · exact ih.cons e.1
  exact hkeys.sublist hsublist

private theorem get?_nestedRequests {type : String} (hempty : type ≠ "")
    (hprimary : type ≠ primary) : s.nestedRequests.get? type =
      (s.query.bind fun q => q.fieldsFor type).map some := by
  unfold nestedRequests
  rw [Entries.get?_map some]
  cases s.query with
  | none => rfl
  | some q => exact congrArg (Option.map some) (q.get?_scopedFields hempty hprimary)

theorem nodup_keys_nestedRequests (s : Service) : s.nestedRequests.keys.Nodup := by
  unfold nestedRequests
  rw [Entries.keys, List.map_map]
  cases s.query with
  | none => exact List.nodup_nil
  | some q => exact q.nodup_keys_scopedFields

private theorem mem_childChoice {type : String} {r : ResourceSchema}
    (hr : s.catalog.find? type = some r) (requested : Option (List String)) (n : String) :
    n ∈ (s.childChoice type requested).getD (s.defaultFields type) ↔
      n ∈ s.shownFields r requested [] := by
  have hdefault : s.defaultFields type = s.shownFields r none [] := by rw [defaultFields, hr]; rfl
  rw [childChoice, hr, Option.bind_some, hdefault]
  dsimp only
  split
  · next hsame =>
    rw [Option.getD_none, ← mem_unique, ← mem_sortNames, ← hsame, mem_sortNames, mem_unique]
  · rw [Option.getD_some, mem_sortNames, mem_unique]

/-- Below a relation the plan follows the fields that are shown of the target. -/
private theorem mem_childFields (hempty : "" ∉ s.catalog.types)
    (hprimary : primary ∉ s.catalog.types)
    {root type : String} (hreach : type ∈ s.catalog.reachable root) (f : Field) (n : String) :
    n ∈ s.childFields (s.chosenNested root s.nestedRequests).sorted f type ↔
      n ∈ s.directFields f type := by
  unfold childFields directFields
  cases f.relation?.bind (·.pinned) with
  | some names => rfl
  | none =>
    have htypes := Catalog.mem_types_of_mem_reachable hreach
    obtain ⟨r, hr⟩ := Catalog.exists_of_mem_types htypes
    have htype := Catalog.type_of_find? hr
    have hkeys := s.nodup_keys_nestedRequests
    have hshown : s.requestedOf type = s.shownFields r (s.requestedFields r) [] := by
      rw [requestedOf, hr]
      rfl
    have hrequested : s.requestedFields r = s.query.bind fun q => q.fieldsFor type := by
      rw [requestedFields, htype]
    simp only [Option.getD_none]
    rw [Entries.get?_sorted (nodup_keys_chosenNested hkeys), get?_chosenNested hreach hkeys,
      get?_nestedRequests (fun h => hempty (h ▸ htypes)) (fun h => hprimary (h ▸ htypes)), hshown,
      hrequested]
    cases s.query.bind fun q => q.fieldsFor type with
    | none =>
      rw [← mem_childChoice hr none n, childChoice, hr]
      simp
    | some names => exact mem_childChoice hr (some names) n

/-- The plan for the current request and the direct walk come from the same contributions. -/
private theorem mem_collect_directFields (hempty : "" ∉ s.catalog.types)
    (hprimary : primary ∉ s.catalog.types) {r : ResourceSchema}
    (hr : s.catalog.find? r.type = some r) (a : Contribution) :
    a ∈ s.catalog.collect (s.childFields (s.chosenNested r.type s.nestedRequests).sorted) [r.type]
        r "" (plannedFields r (s.shownFields r (s.requestedFields r) [])) ↔
      a ∈ s.catalog.collect s.directFields [r.type] r ""
        (s.shownFields r (s.requestedFields r) []) := by
  have hchildren (f : Field) (t : String) (ht : t ∈ s.catalog.reachable r.type) (n : String) :=
    mem_childFields hempty hprimary ht f n
  constructor
  · exact Catalog.collect_subset (fun f t ht n => (hchildren f t ht n).mp) hr (.inl rfl)
      List.mem_cons_self fun n hn _ => (mem_plannedFields.mp hn).1
  · exact Catalog.collect_subset (fun f t ht n => (hchildren f t ht n).mpr) hr (.inl rfl)
      List.mem_cons_self fun n hn hdeclared => mem_plannedFields.mpr ⟨hn, hdeclared⟩

theorem eval_planFor [Room] (r : ResourceSchema) : (s.planFor r).eval =
    ((s.builtPlan (s.chosenNested r.type s.nestedRequests).sorted r
      (plannedFields r (s.shownFields r (s.requestedFields r) []))).map
        fun p => p.withAggregates (s.loadAggregates r none)).mapError
          fun e => .raised (.plan e) := by
  have hload (fields : List String) : s.loadMap r fields = s.compile r fields s.nestedRequests :=
    rfl
  rw [planFor, Task.eval_bind, eval_resolveFields]
  dsimp only
  rw [hload, Task.eval_bind, eval_compile]
  cases s.builtPlan (s.chosenNested r.type s.nestedRequests).sorted r
    (plannedFields r (s.shownFields r (s.requestedFields r) [])) <;> rfl

theorem eval_planFor_eq_ok [Room] {r : ResourceSchema} {p : LoadPlan} :
    (s.planFor r).eval = .ok p ↔
      ∃ q, s.builtPlan (s.chosenNested r.type s.nestedRequests).sorted r
          (plannedFields r (s.shownFields r (s.requestedFields r) [])) = .ok q ∧
        p = q.withAggregates (s.loadAggregates r none) := by
  rw [eval_planFor]
  cases s.builtPlan (s.chosenNested r.type s.nestedRequests).sorted r
      (plannedFields r (s.shownFields r (s.requestedFields r) [])) with
  | error e => exact ⟨fun h => (nomatch h), fun ⟨_, h, _⟩ => (nomatch h)⟩
  | ok q => simp [Except.map, mapError_ok, eq_comm]

/-- Requests that a caller may leave out: for the root, for a type out of reach or unregistered, and
for what a type shows anyway. -/
def IsIdle (s : Service) (root : String) (e : String × Option (List String)) : Prop :=
  e.1 = root ∨ e.1 ∉ s.catalog.reachable root ∨ e.1 ∉ s.catalog.types ∨
    ∃ r, s.catalog.find? e.1 = some r ∧
      ∀ n, n ∈ s.shownFields r e.2 [] ↔ n ∈ s.shownFields r none []

private theorem chosenNested_filter {root : String} {keep : String × Option (List String) → Bool}
    {requests : Entries (Option (List String))}
    (hidle : ∀ e ∈ requests, keep e = false → s.IsIdle root e) :
    s.chosenNested root (requests.filter keep) = s.chosenNested root requests := by
  induction requests with
  | nil => rfl
  | cons e rest ih =>
    have hrest := ih fun e he => hidle e (List.mem_cons_of_mem _ he)
    cases hkeep : keep e with
    | true => rw [List.filter_cons_of_pos hkeep, chosenNested_cons, chosenNested_cons, hrest]
    | false =>
      rw [List.filter_cons_of_neg (by simp [hkeep]), chosenNested_cons, hrest]
      split
      · next hreach =>
        rcases hidle e List.mem_cons_self hkeep with heq | hout | hunregistered | ⟨r, hr, hsame⟩
        · exact absurd (heq ▸ hreach) Catalog.root_notMem_reachable
        · exact absurd hreach hout
        · exact absurd (Catalog.mem_types_of_mem_reachable hreach) hunregistered
        · have hnone : s.childChoice e.1 e.2 = none := by
            rw [childChoice, hr, Option.bind_some]
            simp only [sortNames_unique_congr hsame, if_true]
          rw [hnone]
          rfl
      · rfl

end Service

theorem LoadPlan.sameRelations {maxDepth : Nat} {cs ds : List Contribution} {p q : LoadPlan}
    (hp : LoadPlan.empty.addAll maxDepth cs = .ok p)
    (hq : LoadPlan.empty.addAll maxDepth ds = .ok q)
    (hload : ∀ path l, .load path l ∈ cs ↔ .load path l ∈ ds)
    (hnamed : ∀ path l, .load path l ∈ ds → l.resource ≠ some "") :
    p.sorted.SameRelations q.sorted := by
  have hpkeys := (LoadPlan.distinctKeys_empty.addAll hp).1
  have hqkeys := (LoadPlan.distinctKeys_empty.addAll hq).1
  have hpa := LoadPlan.accounts_of_addAll hp
  have hqa := LoadPlan.accounts_of_addAll hq
  refine ⟨?_, fun path l k hl hk => ?_⟩
  · refine eq_of_pairwise_of_mem (Entries.pairwise_keys_sorted hpkeys)
      (Entries.pairwise_keys_sorted hqkeys) fun path => ?_
    have hpath : (∃ l, .load path l ∈ cs) ↔ ∃ l, .load path l ∈ ds := exists_congr (hload path)
    exact (hpa.mem_paths path).trans (hpath.trans (hqa.mem_paths path).symm)
  · have hsum := (hpa.sums hpkeys hl).congr (hload path)
    exact hsum.alike (hqa.sums hqkeys hk) (hnamed path)

/-- The plan for a request loads what the direct walk loads, and fails when it fails. Requests that
can make no difference may be left out. -/
theorem Service.planFor_loads_what_is_shown [Room] (s : Service) (hempty : "" ∉ s.catalog.types)
    (hprimary : primary ∉ s.catalog.types) {type : String} {r : ResourceSchema}
    (hr : s.catalog.find? type = some r) :
    ((∃ p q, (s.planFor r).eval = .ok p ∧ (s.directPlan r).eval = .ok q ∧ p.SameRelations q) ∨
      ∃ e e', (s.planFor r).eval = .error (.raised (.plan e)) ∧
        (s.directPlan r).eval = .error (.raised (.plan e'))) ∧
    ∀ fields requests keep, (∀ e ∈ requests, keep e = false → s.IsIdle r.type e) →
      (s.compile r fields (requests.filter keep)).eval = (s.compile r fields requests).eval := by
  have hr : s.catalog.find? r.type = some r := (Catalog.type_of_find? hr).symm ▸ hr
  have hload := fun path l => s.mem_collect_directFields hempty hprimary hr (.load path l)
  have hnamed : ∀ path l, .load path l ∈ s.catalog.collect s.directFields [r.type] r ""
      (s.shownFields r (s.requestedFields r) []) → l.resource ≠ some "" := by
    intro path l hl hresource
    exact hempty (Catalog.resource_mem_types hr hl hresource)
  refine ⟨?_, fun fields requests keep hidle => ?_⟩
  · have hplan := s.eval_planFor r
    have hdirect := s.eval_directPlan r
    have hok := LoadPlan.addAll_isOk_congr s.settings.maxDepth hload
    unfold builtPlan at hplan
    cases hp : LoadPlan.empty.addAll s.settings.maxDepth (s.catalog.collect
        (s.childFields (s.chosenNested r.type s.nestedRequests).sorted) [r.type] r ""
        (plannedFields r (s.shownFields r (s.requestedFields r) []))) with
    | ok p =>
      obtain ⟨q, hq⟩ := hok.mp ⟨p, hp⟩
      rw [hp] at hplan
      rw [hq] at hdirect
      have hsame := LoadPlan.sameRelations hp hq hload hnamed
      exact .inl ⟨_, _, hplan, hdirect, hsame.paths, hsame.loads⟩
    | error e =>
      cases hq : LoadPlan.empty.addAll s.settings.maxDepth (s.catalog.collect s.directFields
          [r.type] r "" (s.shownFields r (s.requestedFields r) [])) with
      | ok q =>
        obtain ⟨p, hp'⟩ := hok.mpr ⟨q, hq⟩
        rw [hp] at hp'
        cases hp'
      | error e' =>
        rw [hp] at hplan
        rw [hq] at hdirect
        exact .inr ⟨e, e', hplan, hdirect⟩
  · rw [eval_compile, eval_compile, chosenNested_filter hidle]

namespace Threads

attribute [local instance] Room.usual

def author : RelationField := ⟨"author", some "member", none, none, none, false⟩

def home : RelationField := ⟨"home", none, none, none, none, false⟩

def topic : ResourceSchema where
  type := "topic"
  fields := [⟨"author", .relation author, []⟩, ⟨"title", .scalar "title", []⟩]
  defaults := ["title"]
  fixed := []
  model := none

def member : ResourceSchema where
  type := "member"
  fields := [⟨"name", .scalar "name", []⟩, ⟨"home", .relation home, []⟩]
  defaults := ["name"]
  fixed := []
  model := none

def query : Query where
  resource := some "topic"
  fields := [(primary, ["author"]), ("member", ["home"]), ("city", ["name"])]
  counts := []
  sums := []
  averages := []
  filters := none
  order := []
  pagination := .offset 25 1

def forum : Service where
  catalog := ⟨⟨[topic, member], [], [], true⟩, rfl, rfl⟩
  settings := default
  query := some query

def plan : LoadPlan where
  relations := [("author", { resource := some "member" }), ("author.home", {})]
  aggregates := []

private theorem directPlan_topic : (forum.directPlan topic).eval = .ok plan := by
  have hexcluded (r : ResourceSchema) : r.knownExclusions [] = [] := by
    simp [ResourceSchema.knownExclusions, unique, sortNames]
  have hshown : forum.shownFields topic (forum.requestedFields topic) [] = ["author", "id"] := by
    rw [Service.shownFields, hexcluded]
    decide
  have hbelow : forum.directFields ⟨"author", .relation author, []⟩ "member" = ["home", "id"] := by
    show forum.shownFields member (forum.requestedFields member) [] = _
    rw [Service.shownFields, hexcluded]
    decide
  have hauthor : topic.get? "author" = some ⟨"author", .relation author, []⟩ := rfl
  have hhome : member.get? "home" = some ⟨"home", .relation home, []⟩ := rfl
  have hid : topic.get? "id" = none ∧ member.get? "id" = none := ⟨rfl, rfl⟩
  have hloads : forum.catalog.contributions ["topic"] "" ⟨"author", .relation author, []⟩ =
        [.load "author" { resource := some "member" }] ∧
      forum.catalog.contributions ["member", "topic"] "author" ⟨"home", .relation home, []⟩ =
        [.load "author.home" {}] := by decide
  have hchild : forum.catalog.child? ["topic"] ⟨"author", .relation author, []⟩ =
      some ⟨member, by decide, by decide⟩ := rfl
  have hnone : forum.catalog.child? ["member", "topic"] ⟨"home", .relation home, []⟩ = none := rfl
  have hsource : (⟨"author", .relation author, []⟩ : Field).source?.getD "" = "author" := rfl
  have hpath : joinPath "" "author" = "author" := rfl
  have hcollect : forum.catalog.collect forum.directFields ["topic"] topic "" ["author", "id"] =
      [.load "author" { resource := some "member" }, .load "author.home" {}] := by
    have htype : member.type = "member" := rfl
    simp only [Catalog.collect, hauthor, hloads, hchild, hsource, hpath, htype, hbelow, hhome,
      hnone, hid, List.append_nil, List.cons_append, List.nil_append]
  have hsorted : plan.sorted = plan := by
    simp [LoadPlan.sorted, plan, Entries.sorted, List.mergeSort,
      List.MergeSort.Internal.splitInTwo]
  have hadd : LoadPlan.empty.addAll forum.settings.maxDepth
      [.load "author" { resource := some "member" }, .load "author.home" {}] = .ok plan := rfl
  have hdirect := forum.eval_directPlan topic
  rw [hshown, show [topic.type] = ["topic"] from rfl, hcollect, hadd] at hdirect
  exact hdirect.trans (congrArg Except.ok hsorted)

/-- The homes of the authors are loaded since they are shown, and asking for cities makes no
difference. -/
theorem loads_what_is_shown :
    ("" ∉ forum.catalog.types ∧ primary ∉ forum.catalog.types ∧
      forum.catalog.find? "topic" = some topic) ∧
    (∃ p, (forum.planFor topic).eval = .ok p ∧ p.relations.keys = ["author", "author.home"]) ∧
    (forum.compile topic ["author"] [("member", some ["home"])]).eval =
      (forum.compile topic ["author"]
        [("member", some ["home"]), ("city", some ["name"])]).eval := by
  have hempty : "" ∉ forum.catalog.types := by decide
  have hprimary : primary ∉ forum.catalog.types := by decide
  have hfound : forum.catalog.find? "topic" = some topic := rfl
  obtain ⟨hplan, hidle⟩ := forum.planFor_loads_what_is_shown hempty hprimary hfound
  refine ⟨⟨hempty, hprimary, hfound⟩, ?_, ?_⟩
  · rcases hplan with ⟨p, q, hp, hq, hsame⟩ | ⟨e, e', -, hfails⟩
    · obtain rfl := Except.ok.inj (hq.symm.trans directPlan_topic)
      exact ⟨p, hp, hsame.paths⟩
    · rw [directPlan_topic] at hfails
      cases hfails
  · refine hidle ["author"] [("member", some ["home"]), ("city", some ["name"])]
      (fun e => e.1 == "member") fun e he hleft => ?_
    have hcity : e.1 ∉ forum.catalog.types := by
      revert e
      decide
    exact .inr (.inr (.inl hcity))

def thread : ResourceSchema where
  type := "thread"
  fields := [⟨"second", .relation ⟨"comments", none, none, none, some "", true⟩, []⟩,
    ⟨"first", .relation ⟨"comments", none, none, none, none, true⟩, []⟩]
  defaults := ["second", "first"]
  fixed := []
  model := none

def service : Service where
  catalog := ⟨⟨[thread], [], [], true⟩, rfl, rfl⟩
  settings := default
  query := none

/-- Whether an absent constraint is spelled as an empty one depends on the order of the fields, and
the plan goes through them in another order than the direct walk. -/
theorem empty_constraint_kept : ∃ p q l k,
    (service.planFor thread).eval = .ok p ∧ (service.directPlan thread).eval = .ok q ∧
      ("comments", l) ∈ p.relations ∧ ("comments", k) ∈ q.relations ∧
        l.constraint = some "" ∧ k.constraint = none := by
  have hshown : service.shownFields thread (service.requestedFields thread) [] =
      ["second", "first", "id"] := by
    have hexcluded : thread.knownExclusions [] = [] := by
      simp [ResourceSchema.knownExclusions, unique, sortNames]
    rw [Service.shownFields, hexcluded]
    decide
  have hplanned : Service.plannedFields thread ["second", "first", "id"] = ["first", "second"] := by
    have hdeclared : (unique ["second", "first", "id"]).filter thread.declares =
        ["second", "first"] := by decide
    rw [Service.plannedFields, hdeclared]
    simp [sortNames, List.mergeSort, List.MergeSort.Internal.splitInTwo]
  have hcollect (children : Field → String → List String) (names : List String) :
      service.catalog.collect children ["thread"] thread "" ("first" :: names) =
        .load "comments" { many := true } ::
          service.catalog.collect children ["thread"] thread "" names ∧
      service.catalog.collect children ["thread"] thread "" ("second" :: names) =
        .load "comments" { constraint := some "", many := true } ::
          service.catalog.collect children ["thread"] thread "" names := by
    constructor <;>
      simp [Catalog.collect, ResourceSchema.get?, thread, Catalog.contributions, Catalog.child?,
        Field.embedded?, Field.relation?, Catalog.relationLoad, joinPath]
  have hid (children : Field → String → List String) :
      service.catalog.collect children ["thread"] thread "" ["id"] = [] := by
    simp [Catalog.collect, ResourceSchema.get?, thread]
  have hnil (children : Field → String → List String) :
      service.catalog.collect children ["thread"] thread "" [] = [] := by
    simp [Catalog.collect]
  have hplan := service.eval_planFor thread
  have hdirect := service.eval_directPlan thread
  rw [hshown, hplanned, Service.builtPlan, show [thread.type] = ["thread"] from rfl,
    (hcollect _ _).1, (hcollect _ _).2, hnil] at hplan
  rw [hshown, show [thread.type] = ["thread"] from rfl, (hcollect _ _).2, (hcollect _ _).1,
    hid] at hdirect
  refine ⟨_, _, { constraint := some "", many := true }, { many := true }, hplan, hdirect, ?_, ?_,
    rfl, rfl⟩
  · exact List.mem_mergeSort.mpr List.mem_cons_self
  · exact List.mem_mergeSort.mpr List.mem_cons_self

end Threads
end FieldPlan
