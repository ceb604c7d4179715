import FieldPlan.Model.Declared
import FieldPlan.Proofs.Plan.Gathering
import FieldPlan.Proofs.Service.Rules
/-!
# The plan of more fields

The fields of a plan contribute each on its own. So the plan of two lists of fields together is the
two plans merged, and asking for more fields never asks for less.
-/
namespace FieldPlan

open Cache

private theorem flatMap_filter_of_nil {α : Type} {f : String → List α} {keep : String → Bool}
    {names : List String} (h : ∀ n ∈ names, keep n = false → f n = []) :
    (names.filter keep).flatMap f = names.flatMap f := by
  induction names with
  | nil => rfl
  | cons n names ih =>
    have hrest := ih fun m hm => h m (List.mem_cons_of_mem n hm)
    cases hn : keep n with
    | true => rw [List.filter_cons_of_pos hn, List.flatMap_cons, List.flatMap_cons, hrest]
    | false =>
      rw [List.filter_cons_of_neg (by simp [hn]), List.flatMap_cons, h n List.mem_cons_self hn,
        List.nil_append, hrest]

namespace Service

variable {s : Service} {nested : Selection} {r : ResourceSchema} {names names' : List String}
  {path : String} {l : RelationLoad} {u p q : LoadPlan}

theorem pairwise_plannedFields (r : ResourceSchema) (fields : List String) :
    (plannedFields r fields).Pairwise (· < ·) :=
  pairwise_sortNames ((nodup_unique fields).filter _)

theorem plannedFields_filter (r : ResourceSchema) (first second : List String) :
    (plannedFields r (first ++ second)).filter (first.contains ·) = plannedFields r first := by
  refine eq_of_pairwise_of_mem ((pairwise_plannedFields r _).filter _)
    (pairwise_plannedFields r first) fun n => ?_
  simp only [List.mem_filter, mem_plannedFields, List.mem_append, List.contains_iff_mem]
  grind

theorem plannedFields_comm (r : ResourceSchema) (first second : List String) :
    plannedFields r (first ++ second) = plannedFields r (second ++ first) := by
  refine eq_of_pairwise_of_mem (pairwise_plannedFields r _) (pairwise_plannedFields r _) fun n => ?_
  simp only [mem_plannedFields, List.mem_append]
  grind

/-- What fields contribute together is what each of them contributes. -/
theorem mem_collect_plannedFields (nested : Selection) (r : ResourceSchema)
    (first second : List String) (a : Contribution) :
    a ∈ s.catalog.collect (s.childFields nested) [r.type] r ""
        (plannedFields r (first ++ second)) ↔
      a ∈ s.catalog.collect (s.childFields nested) [r.type] r "" (plannedFields r first) ∨
        a ∈ s.catalog.collect (s.childFields nested) [r.type] r "" (plannedFields r second) := by
  rw [Catalog.collect_eq_flatMap, Catalog.collect_eq_flatMap _ _ (plannedFields r first),
    Catalog.collect_eq_flatMap _ _ (plannedFields r second)]
  simp only [List.mem_flatMap, mem_plannedFields, List.mem_append, or_and_right, exists_or]

theorem needs_append {first second : List String} :
    s.Needs nested r (plannedFields r (first ++ second)) path l ↔
      s.Needs nested r (plannedFields r first) path l ∨
        s.Needs nested r (plannedFields r second) path l := by
  simp only [Needs, contributes_iff_mem_collect, mem_collect_plannedFields]

theorem loadsAt_append {first second : List String}
    (h : ¬ ∃ l, s.Needs nested r (plannedFields r second) path l) :
    loadsAt path (s.catalog.collect (s.childFields nested) [r.type] r ""
        (plannedFields r (first ++ second))) =
      loadsAt path (s.catalog.collect (s.childFields nested) [r.type] r ""
        (plannedFields r first)) := by
  rw [Catalog.collect_eq_flatMap, Catalog.collect_eq_flatMap _ _ (plannedFields r first),
    loadsAt_flatMap, loadsAt_flatMap, ← plannedFields_filter r first second]
  refine (flatMap_filter_of_nil fun n hn hout => ?_).symm
  have hsecond : n ∈ plannedFields r second := by
    rw [mem_plannedFields, List.mem_append] at hn
    have hfirst : n ∉ first := by simpa using hout
    exact mem_plannedFields.mpr ⟨hn.1.resolve_left hfirst, hn.2⟩
  refine List.eq_nil_iff_forall_not_mem.mpr fun l hl => h ⟨l, ?_⟩
  refine contributes_of_mem_collect ?_
  rw [Catalog.collect_eq_flatMap]
  exact List.mem_flatMap.mpr ⟨n, hsecond, mem_loadsAt.mp hl⟩

theorem builtPlan_eq_ok : s.builtPlan nested r names = .ok p ↔
    ∃ q, LoadPlan.empty.addAll s.settings.maxDepth
        (s.catalog.collect (s.childFields nested) [r.type] r "" names) = .ok q ∧ p = q.sorted := by
  unfold builtPlan
  cases LoadPlan.empty.addAll s.settings.maxDepth
      (s.catalog.collect (s.childFields nested) [r.type] r "" names) with
  | error e => exact ⟨fun h => (nomatch h), fun ⟨_, h, _⟩ => (nomatch h)⟩
  | ok q => simp [Except.map, eq_comm]

theorem get?_builtPlan_congr (hp : s.builtPlan nested r names = .ok p)
    (hq : s.builtPlan nested r names' = .ok q)
    (h : loadsAt path (s.catalog.collect (s.childFields nested) [r.type] r "" names) =
      loadsAt path (s.catalog.collect (s.childFields nested) [r.type] r "" names')) :
    p.relations.get? path = q.relations.get? path := by
  obtain ⟨p, hadd, rfl⟩ := builtPlan_eq_ok.mp hp
  obtain ⟨q, hadd', rfl⟩ := builtPlan_eq_ok.mp hq
  have hkeys := (LoadPlan.distinctKeys_empty.addAll hadd).1
  have hkeys' := (LoadPlan.distinctKeys_empty.addAll hadd').1
  exact (Entries.get?_sorted hkeys path).trans
    ((LoadPlan.get?_congr hadd hadd' h).trans (Entries.get?_sorted hkeys' path).symm)

theorem mem_aggregates_builtPlan (hp : s.builtPlan nested r names = .ok p) (key : String) :
    key ∈ p.aggregates.keys ↔ ∃ a, .aggregate key a ∈
      s.catalog.collect (s.childFields nested) [r.type] r "" names := by
  obtain ⟨p, hadd, rfl⟩ := builtPlan_eq_ok.mp hp
  have hsorted : key ∈ p.sorted.aggregates.keys ↔ key ∈ p.aggregates.keys :=
    (Entries.keys_sorted_perm p.aggregates).mem_iff
  rw [hsorted, LoadPlan.mem_keys_addAll hadd]
  exact or_iff_right List.not_mem_nil

section Together

variable {first second : List String}

theorem covers_builtPlan (hsub : ∀ n ∈ names, n ∈ names')
    (hp : s.builtPlan nested r names = .ok p) (hu : s.builtPlan nested r names' = .ok u) :
    u.Covers p := by
  have hmono {path : String} {l : RelationLoad} (hl : s.Needs nested r names path l) :
      s.Needs nested r names' path l := hl.mono hsub
  refine ⟨fun path l hl => ?_, fun key hkey => ?_⟩
  · have hsums := sums_of_get? hp hl
    obtain ⟨k, hk, -⟩ := hsums.resource_mem
    obtain ⟨m, hm⟩ := exists_get? hu (hmono hk)
    exact ⟨m, hm, hsums.within (sums_of_get? hu hm) fun k hk => hmono hk⟩
  · obtain ⟨a, ha⟩ := (mem_aggregates_builtPlan hp key).mp hkey
    refine (mem_aggregates_builtPlan hu key).mpr ⟨a, ?_⟩
    rw [Catalog.collect_eq_flatMap, List.mem_flatMap] at ha ⊢
    obtain ⟨n, hn, ha⟩ := ha
    exact ⟨n, hsub n hn, ha⟩

theorem mem_paths_builtPlan (hp : s.builtPlan nested r names = .ok p) (path : String) :
    path ∈ p.paths ↔ ∃ l, s.Needs nested r names path l :=
  (builtPlan_relations hp).2.1 path

/-- Both loads of a shared path are sums, and so the load of all fields there is the sum of the
two. -/
theorem sums_plus (hu : s.builtPlan nested r (plannedFields r (first ++ second)) = .ok u)
    (hp : s.builtPlan nested r (plannedFields r first) = .ok p)
    (hq : s.builtPlan nested r (plannedFields r second) = .ok q) {k : RelationLoad}
    (hl : p.relations.get? path = some l) (hk : q.relations.get? path = some k) :
    l.Agree k ∧ (l.plus k).Sums (s.Needs nested r (plannedFields r (first ++ second)) path) := by
  have hsums := sums_of_get? hp hl
  have hsums' := sums_of_get? hq hk
  have hall := ((s.builtPlan_isOk_iff nested r _).mp ⟨u, hu⟩).2 path
  have hagree : l.Agree k := (hsums.agree_iff_forall hsums').mpr fun a b ha hb =>
    hall a b (needs_append.mpr (.inl ha)) (needs_append.mpr (.inr hb))
  exact ⟨hagree, (hsums.union hsums' hagree).congr fun _ => needs_append.symm⟩

theorem isUnion_builtPlan (hu : s.builtPlan nested r (plannedFields r (first ++ second)) = .ok u)
    (hp : s.builtPlan nested r (plannedFields r first) = .ok p)
    (hq : s.builtPlan nested r (plannedFields r second) = .ok q) : u.IsUnion p q where
  paths path := by
    rw [mem_paths_builtPlan hu, mem_paths_builtPlan hp, mem_paths_builtPlan hq]
    simp only [needs_append, exists_or]
  left path hpath := by
    rw [mem_paths_builtPlan hq] at hpath
    exact get?_builtPlan_congr hu hp (loadsAt_append hpath)
  right path hpath := by
    rw [mem_paths_builtPlan hp] at hpath
    rw [plannedFields_comm] at hu
    exact get?_builtPlan_congr hu hq (loadsAt_append hpath)
  shared path l k hl hk := by
    obtain ⟨hagree, hsums⟩ := sums_plus hu hp hq hl hk
    obtain ⟨j, hj, -⟩ := hsums.resource_mem
    obtain ⟨n, hn⟩ := exists_get? hu hj
    exact ⟨l.plus k, n, RelationLoad.merge_of_agree hagree path, hn,
      (sums_of_get? hu hn).matches hsums⟩
  aggregates key := by
    rw [mem_aggregates_builtPlan hu, mem_aggregates_builtPlan hp, mem_aggregates_builtPlan hq]
    simp only [mem_collect_plannedFields, exists_or]

theorem builtPlan_append_isOk_iff :
    (∃ u, s.builtPlan nested r (plannedFields r (first ++ second)) = .ok u) ↔
      ∃ p q, s.builtPlan nested r (plannedFields r first) = .ok p ∧
        s.builtPlan nested r (plannedFields r second) = .ok q ∧
        ∀ path l k, p.relations.get? path = some l → q.relations.get? path = some k →
          l.Agree k := by
  constructor
  · rintro ⟨u, hu⟩
    obtain ⟨hdepth, hagree⟩ := (s.builtPlan_isOk_iff nested r _).mp ⟨u, hu⟩
    obtain ⟨p, hp⟩ := (s.builtPlan_isOk_iff nested r (plannedFields r first)).mpr
      ⟨fun path l hl => hdepth path l (needs_append.mpr (.inl hl)), fun path l k hl hk =>
        hagree path l k (needs_append.mpr (.inl hl)) (needs_append.mpr (.inl hk))⟩
    obtain ⟨q, hq⟩ := (s.builtPlan_isOk_iff nested r (plannedFields r second)).mpr
      ⟨fun path l hl => hdepth path l (needs_append.mpr (.inr hl)), fun path l k hl hk =>
        hagree path l k (needs_append.mpr (.inr hl)) (needs_append.mpr (.inr hk))⟩
    exact ⟨p, q, hp, hq, fun path l k hl hk => (sums_plus hu hp hq hl hk).1⟩
  · rintro ⟨p, q, hp, hq, hshared⟩
    obtain ⟨hdepth, hagree⟩ := (s.builtPlan_isOk_iff nested r _).mp ⟨p, hp⟩
    obtain ⟨hdepth', hagree'⟩ := (s.builtPlan_isOk_iff nested r _).mp ⟨q, hq⟩
    have hcross {path : String} {l k : RelationLoad}
        (hl : s.Needs nested r (plannedFields r first) path l)
        (hk : s.Needs nested r (plannedFields r second) path k) : l.Agree k := by
      obtain ⟨m, hm⟩ := exists_get? hp hl
      obtain ⟨n, hn⟩ := exists_get? hq hk
      exact ((sums_of_get? hp hm).agree_iff_forall (sums_of_get? hq hn)).mp
        (hshared path m n hm hn) l k hl hk
    refine (s.builtPlan_isOk_iff nested r _).mpr ⟨fun path l hl => ?_, fun path l k hl hk => ?_⟩
    · exact (needs_append.mp hl).elim (hdepth path l) (hdepth' path l)
    · rcases needs_append.mp hl with hl | hl <;> rcases needs_append.mp hk with hk | hk
      · exact hagree path l k hl hk
      · exact hcross hl hk
      · exact (hcross hk hl).symm
      · exact hagree' path l k hl hk

end Together

/-- Compiling two lists of fields together is merging their plans, at the shared paths up to the
order of columns and the spelling of absent names; resources are the same as long as no type is
named by the empty text. It succeeds exactly if both lists compile and the shared paths agree, and
covers both plans. -/
theorem compile_union [Room] (s : Service) (r : ResourceSchema) (first second : List String)
    (requests : Entries (Option (List String))) :
    ((∃ u, (s.compile r (first ++ second) requests).eval = .ok u) ↔
      ∃ p q, (s.compile r first requests).eval = .ok p ∧
        (s.compile r second requests).eval = .ok q ∧
        ∀ path l k, p.relations.get? path = some l → q.relations.get? path = some k →
          l.Agree k) ∧
    ∀ u p q, (s.compile r (first ++ second) requests).eval = .ok u →
      (s.compile r first requests).eval = .ok p → (s.compile r second requests).eval = .ok q →
      u.IsUnion p q ∧ u.Covers p ∧ u.Covers q ∧
        ("" ∉ s.catalog.types → s.catalog.find? r.type = some r → ∀ path l k m n,
          p.relations.get? path = some l → q.relations.get? path = some k →
          l.merge k path = .ok m → u.relations.get? path = some n → n.resource = m.resource) := by
  simp only [eval_compile_eq_ok]
  refine ⟨builtPlan_append_isOk_iff, fun u p q hu hp hq => ⟨isUnion_builtPlan hu hp hq, ?_, ?_,
    fun hempty hr path l k m n hl hk hm hn => ?_⟩⟩
  · refine covers_builtPlan (fun n hn => ?_) hp hu
    rw [mem_plannedFields] at hn ⊢
    exact ⟨List.mem_append_left _ hn.1, hn.2⟩
  · refine covers_builtPlan (fun n hn => ?_) hq hu
    rw [mem_plannedFields] at hn ⊢
    exact ⟨List.mem_append_right _ hn.1, hn.2⟩
  · obtain ⟨-, rfl⟩ := RelationLoad.merge_eq_ok hm
    obtain ⟨-, hsums⟩ := sums_plus hu hp hq hl hk
    have hsums' := sums_of_get? hu hn
    rw [← hsums.given_resource fun j hj => resource_ne_empty hempty hr hj,
      ← hsums'.given_resource fun j hj => resource_ne_empty hempty hr hj]
    exact (hsums'.matches hsums).resource

end Service

namespace Reports

attribute [local instance] Room.usual

/-- The comments of a report under a constraint, which may be absent or empty. -/
def view (constraint : Option String) : RelationField :=
  ⟨"comments", none, none, none, constraint, true⟩

def report : ResourceSchema where
  type := "report"
  fields := [⟨"all", .relation (view none), []⟩, ⟨"drafts", .relation (view (some "")), []⟩,
    ⟨"live", .relation (view (some "published")), []⟩]
  defaults := []
  fixed := []
  model := none

def published : Constraint := .comparing "state" .equal (.text "published")

def service : Service where
  catalog := ⟨⟨[report], [], [("published", published)], true⟩, rfl, rfl⟩
  settings := default
  query := none

def comments (constraint : Option String) : RelationLoad := { constraint, many := true }

private theorem collect_cons {name : String} {constraint : Option String}
    (hname : report.get? name = some ⟨name, .relation (view constraint), []⟩)
    (children : Field → String → List String) (names : List String) :
    service.catalog.collect children [report.type] report "" (name :: names) =
      .load "comments" (comments constraint) ::
        service.catalog.collect children [report.type] report "" names := by
  simp [Catalog.collect, hname, Catalog.contributions, Catalog.child?, Field.embedded?,
    Field.relation?, Catalog.relationLoad, joinPath, view, comments]

private theorem collect_nil (children : Field → String → List String) :
    service.catalog.collect children [report.type] report "" [] = [] := by
  rw [Catalog.collect]

private theorem compile_eq {fields names : List String} {cs : List Contribution}
    {constraint : Option String} (hplanned : Service.plannedFields report fields = names)
    (hcollect : ∀ children,
      service.catalog.collect children [report.type] report "" names = cs)
    (hadd : LoadPlan.empty.addAll service.settings.maxDepth cs =
      .ok ⟨[("comments", comments constraint)], []⟩) :
    (service.compile report fields []).eval =
      .ok ⟨[("comments", comments constraint)], []⟩ := by
  rw [Service.eval_compile_eq_ok, hplanned, Service.builtPlan, hcollect, hadd]
  simp [Except.map, LoadPlan.sorted, Entries.sorted]

private theorem compile_one {name : String} {constraint : Option String}
    (hname : report.get? name = some ⟨name, .relation (view constraint), []⟩) :
    (service.compile report [name] []).eval = .ok ⟨[("comments", comments constraint)], []⟩ := by
  have hdeclared : report.declares name = true := by rw [ResourceSchema.declares, hname]; rfl
  have hplanned : Service.plannedFields report [name] = [name] := by
    rw [Service.plannedFields, unique_of_nodup (List.nodup_cons.mpr ⟨List.not_mem_nil, .nil⟩),
      List.filter_cons_of_pos hdeclared]
    exact List.mergeSort_singleton name
  exact compile_eq hplanned (fun children => by rw [collect_cons hname, collect_nil]) rfl

private theorem compile_drafts_live : (service.compile report (["drafts"] ++ ["live"]) []).eval =
    .ok ⟨[("comments", comments (some "published"))], []⟩ := by
  have hplanned : Service.plannedFields report (["drafts"] ++ ["live"]) = ["drafts", "live"] := by
    have hdeclared : (unique (["drafts"] ++ ["live"])).filter report.declares =
        ["drafts", "live"] := by decide
    rw [Service.plannedFields, hdeclared]
    simp [sortNames, List.mergeSort, List.MergeSort.Internal.splitInTwo]
  exact compile_eq hplanned
    (fun children => by rw [collect_cons rfl, collect_cons rfl, collect_nil]) rfl

private theorem compile_drafts_all : (service.compile report (["drafts"] ++ ["all"]) []).eval =
    .ok ⟨[("comments", comments (some ""))], []⟩ := by
  have hplanned : Service.plannedFields report (["drafts"] ++ ["all"]) = ["all", "drafts"] := by
    have hdeclared : (unique (["drafts"] ++ ["all"])).filter report.declares =
        ["drafts", "all"] := by decide
    rw [Service.plannedFields, hdeclared]
    simp [sortNames, List.mergeSort, List.MergeSort.Internal.splitInTwo]
  exact compile_eq hplanned
    (fun children => by rw [collect_cons rfl, collect_cons rfl, collect_nil]) rfl

/-- A draft has an empty constraint, which agrees with any other although the two differ, and which
is kept or not depending on the order of the fields. -/
theorem empty_constraint_agrees :
    service.catalog.schemaOf (.named "report") = .ok report ∧
    ¬ ((∃ u, (service.compile report (["drafts"] ++ ["live"]) []).eval = .ok u) ↔
      ∃ p q, (service.compile report ["drafts"] []).eval = .ok p ∧
        (service.compile report ["live"] []).eval = .ok q ∧
        ∀ path l k, p.relations.get? path = some l → q.relations.get? path = some k →
          (∀ x y, l.resource = some x → k.resource = some y → x = y) ∧
            ∀ x y, l.constraint = some x → k.constraint = some y → x = y) ∧
    ¬ ∀ u p q, (service.compile report (["drafts"] ++ ["all"]) []).eval = .ok u →
      (service.compile report ["drafts"] []).eval = .ok p →
      (service.compile report ["all"] []).eval = .ok q →
        ∀ path l k m n, p.relations.get? path = some l → q.relations.get? path = some k →
          l.merge k path = .ok m → u.relations.get? path = some n →
          n.constraint = m.constraint := by
  have hdrafts := compile_one (show report.get? "drafts" = some ⟨_, .relation (view (some "")), _⟩
    from rfl)
  have hlive := compile_one (show report.get? "live" =
    some ⟨_, .relation (view (some "published")), _⟩ from rfl)
  have hall := compile_one (show report.get? "all" = some ⟨_, .relation (view none), _⟩ from rfl)
  refine ⟨rfl, fun h => ?_, fun h => ?_⟩
  · obtain ⟨p, q, hp, hq, hsame⟩ := h.mp ⟨_, compile_drafts_live⟩
    obtain rfl := Except.ok.inj (hdrafts.symm.trans hp)
    obtain rfl := Except.ok.inj (hlive.symm.trans hq)
    exact absurd ((hsame "comments" _ _ rfl rfl).2 "" "published" rfl rfl) (by decide)
  · exact absurd (h _ _ _ compile_drafts_all hdrafts hall "comments" _ _ _ _ rfl rfl rfl rfl)
      (by decide)

end Reports
end FieldPlan
